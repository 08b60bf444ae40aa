import Cdesktop.ClaudeLogs
import Mathlib.Algebra.Ring.Nat

/-! The processor of plain text output, which makes entries of it as it comes. -/

namespace Cdesktop.PlainText
open ClaudeLogs (splitInclusive)
set_option autoImplicit true

inductive MessageBoundary where
  | split (lineIdx : Nat)
  | incompleteContent

structure PlainTextBuffer where
  lines : List String
  totalLen : Nat

/-- The last line grows where it has no newline. -/
def PlainTextBuffer.ingest (b : PlainTextBuffer) (textChunk : String) : PlainTextBuffer :=
  let (currentPartial, lines, totalLen) : String × List String × Nat :=
    match b.lines.getLast? with
    | some last =>
      if last.toList.getLast? = some '\n' then ("", b.lines, b.totalLen)
      else (last, b.lines.dropLast, b.totalLen - last.utf8ByteSize)
    | none => ("", b.lines, b.totalLen)
  let combinedText := currentPartial ++ textChunk
  { lines := lines ++ (splitInclusive combinedText.toList).map String.ofList
    totalLen := totalLen + combinedText.utf8ByteSize }

def PlainTextBuffer.drainLines (b : PlainTextBuffer) (n : Nat) : List String × PlainTextBuffer :=
  let n := min n b.lines.length
  let drained := b.lines.take n
  (drained,
    { lines := b.lines.drop n
      totalLen := drained.foldl (fun len line => len - line.utf8ByteSize) b.totalLen })

/-- The loop over the lines in `drain_size`. -/
def linesToDrain (len drainedLen lines : Nat) : List String → Nat
  | [] => lines
  | line :: rest =>
    if len ≤ drainedLen ∧ 0 < lines then lines
    else linesToDrain len (drainedLen + line.utf8ByteSize) (lines + 1) rest

def PlainTextBuffer.drainSize (b : PlainTextBuffer) (len : Nat) :
    List String × PlainTextBuffer :=
  b.drainLines (linesToDrain len 0 0 b.lines)

def PlainTextBuffer.flush (b : PlainTextBuffer) : List String × PlainTextBuffer :=
  (b.lines, { lines := [], totalLen := 0 })

def PlainTextBuffer.recomputeLen (b : PlainTextBuffer) : PlainTextBuffer :=
  { b with totalLen := (b.lines.map String.utf8ByteSize).sum }

def PlainTextBuffer.partialLine (b : PlainTextBuffer) : Option String :=
  match b.lines.getLast? with
  | some last => if last.toList.getLast? = some '\n' then none else some last
  | none => none

def PlainTextBuffer.isEmpty (b : PlainTextBuffer) : Bool := b.totalLen = 0

/-- How the processor was built. Durations are in nanoseconds. -/
structure Config (ε : Type) where
  normalizedEntryProducer : String → ε
  entrySizeThreshold : Option Nat
  timeGap : Option Nat
  formatChunk : Option (Option String → String → String)
  transformLines : Option (List String → List String)
  messageBoundaryPredicate : Option (List String → Option MessageBoundary)

def Config.new (normalizedEntryProducer : String → ε) (sizeThreshold timeGap : Option Nat)
    (formatChunk : Option (Option String → String → String))
    (transformLines : Option (List String → List String))
    (messageBoundaryPredicate : Option (List String → Option MessageBoundary)) : Config ε :=
  { normalizedEntryProducer, formatChunk, transformLines, messageBoundaryPredicate, timeGap
    entrySizeThreshold :=
      if sizeThreshold.isNone ∧ timeGap.isNone then some (8 * 1024) else sizeThreshold }

/-- The indexes that the counter gives to this processor. Others that use the counter take the ones
in between. -/
structure EntryIndexProvider where
  next : Nat → Nat
  increasing : ∀ n, next n < next (n + 1)

structure PlainTextLogProcessor where
  buffer : PlainTextBuffer
  lastChunkArrivalTime : Nat
  currentEntryIndex : Option Nat
  taken : Nat

def PlainTextLogProcessor.new (now : Nat) : PlainTextLogProcessor :=
  { buffer := ⟨[], 0⟩, lastChunkArrivalTime := now, currentEntryIndex := none, taken := 0 }

inductive Patch (ε : Type) where
  | add (index : Nat) (entry : ε)
  | replace (index : Nat) (entry : ε)

section Process

variable (c : Config ε) (provider : EntryIndexProvider)

def createPatch (lines : List String) (p : PlainTextLogProcessor) :
    Patch ε × PlainTextLogProcessor :=
  let entry := c.normalizedEntryProducer (String.join lines)
  match p.currentEntryIndex with
  | some index => (.replace index entry, p)
  | none =>
    let index := provider.next p.taken
    (.add index entry, { p with currentEntryIndex := some index, taken := p.taken + 1 })

theorem createPatch_buffer (lines : List String) (p : PlainTextLogProcessor) :
    (createPatch c provider lines p).2.buffer = p.buffer := by
  unfold createPatch
  split <;> rfl

def conclude (drained : List String × PlainTextBuffer) (p : PlainTextLogProcessor) :
    Patch ε × PlainTextLogProcessor :=
  let created := createPatch c provider drained.1 { p with buffer := drained.2 }
  (created.1, { created.2 with currentEntryIndex := none })

theorem conclude_buffer (drained : List String × PlainTextBuffer) (p : PlainTextLogProcessor) :
    (conclude c provider drained p).2.buffer = drained.2 :=
  createPatch_buffer c provider drained.1 { p with buffer := drained.2 }

theorem drainLines_length {b : PlainTextBuffer} (h : (b.drainLines n).1 ≠ []) :
    (b.drainLines n).2.lines.length < b.lines.length := by
  have hpos := List.length_pos_of_ne_nil h
  change 0 < (b.lines.take (min n b.lines.length)).length at hpos
  change (b.lines.drop (min n b.lines.length)).length < b.lines.length
  rw [List.length_take] at hpos
  rw [List.length_drop]
  omega

/-- The loop over the predicate: whether it asks for more content at its end. It has no end where
the predicate splits nothing off and is asked about the same lines again. -/
def splitMessages (p : PlainTextLogProcessor) :
    Option (List (Patch ε) × PlainTextLogProcessor × Bool) :=
  match c.messageBoundaryPredicate.bind (· p.buffer.lines) with
  | none => some ([], p, false)
  | some .incompleteContent => some ([], p, true)
  | some (.split lineIdx) =>
    let drained := p.buffer.drainLines lineIdx
    if _h : drained.1 = [] then none
    else
      let concluded := conclude c provider drained p
      (splitMessages concluded.2).map fun rest => (concluded.1 :: rest.1, rest.2)
termination_by p.buffer.lines.length
decreasing_by
  rw [conclude_buffer]
  exact drainLines_length _h

def splitSizes (sizeThreshold : Nat) (p : PlainTextLogProcessor) :
    List (Patch ε) × PlainTextLogProcessor :=
  if sizeThreshold ≤ p.buffer.totalLen then
    let drained := p.buffer.drainSize sizeThreshold
    if _h : drained.1 = [] then ([], { p with buffer := drained.2 })
    else
      let concluded := conclude c provider drained p
      let rest := splitSizes sizeThreshold concluded.2
      (concluded.1 :: rest.1, rest.2)
  else ([], p)
termination_by p.buffer.lines.length
decreasing_by
  rw [conclude_buffer]
  exact drainLines_length _h

def splitBySize (p : PlainTextLogProcessor) : List (Patch ε) × PlainTextLogProcessor :=
  match c.entrySizeThreshold with
  | some sizeThreshold => splitSizes c provider sizeThreshold p
  | none => ([], p)

def emit (patches : List (Patch ε)) (p : PlainTextLogProcessor) :
    List (Patch ε) × PlainTextLogProcessor :=
  let split := splitBySize c provider p
  if split.2.buffer.isEmpty then (patches ++ split.1, split.2)
  else
    let created := createPatch c provider split.2.buffer.lines split.2
    (patches ++ split.1 ++ [created.1], created.2)

structure Chunk where
  text : String
  arrival : Nat

/-- What is done with a chunk that is not held to be a new entry. -/
def accept (chunk : Chunk) (p : PlainTextLogProcessor) :
    Option (List (Patch ε) × PlainTextLogProcessor) :=
  let p := { p with lastChunkArrivalTime := chunk.arrival }
  let formattedChunk :=
    match c.formatChunk with
    | some formatChunk => formatChunk p.buffer.partialLine chunk.text
    | none => chunk.text
  if formattedChunk = "" then some ([], p)
  else
    let buffer := p.buffer.ingest formattedChunk
    let buffer :=
      match c.transformLines with
      | some transformLines =>
        PlainTextBuffer.recomputeLen { buffer with lines := transformLines buffer.lines }
      | none => buffer
    let p := { p with buffer := buffer }
    if c.transformLines.isSome ∧ buffer.isEmpty then some ([], p)
    else match splitMessages c provider p with
      | none => none
      | some (patches, p, true) => some (patches, p)
      | some (patches, p, false) => some (emit c provider patches p)

def process (chunk : Chunk) (p : PlainTextLogProcessor) :
    Option (List (Patch ε) × PlainTextLogProcessor) :=
  if chunk.text = "" then some ([], p)
  else if ¬ p.buffer.isEmpty ∧
      c.timeGap.any (fun timeGap => decide (timeGap ≤ chunk.arrival - p.lastChunkArrivalTime)) then
    let flushed := p.buffer.flush
    let p := { p with buffer := flushed.2 }
    if flushed.1 ≠ [] then
      let created := createPatch c provider flushed.1 p
      some ([created.1], created.2)
    else accept c provider chunk { p with currentEntryIndex := none }
  else accept c provider chunk p

def processAll : List Chunk → PlainTextLogProcessor →
    Option (List (Patch ε) × PlainTextLogProcessor)
  | [], p => some ([], p)
  | chunk :: chunks, p => do
    let first ← process c provider chunk p
    let rest ← processAll chunks first.2
    return (first.1 ++ rest.1, rest.2)

end Process

def applyPatch (entries : List (Nat × ε)) : Patch ε → List (Nat × ε)
  | .add index entry => entries ++ [(index, entry)]
  | .replace index entry =>
    entries.map fun old => if old.1 = index then (index, entry) else old

def entriesOf (patches : List (Patch ε)) : List (Nat × ε) := patches.foldl applyPatch []

end Cdesktop.PlainText
