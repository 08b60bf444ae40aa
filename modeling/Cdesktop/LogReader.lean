import Cdesktop.LogCodec

namespace Cdesktop.ExecutionLog
open RecordStream
set_option autoImplicit true

structure OwnerSummary where
  uncompressedBytes : Nat
  outcome : Option CaptureOutcome
  legacyCaptureMetadata : Bool
  legacySqlFingerprint : Option String
  controlBytes : Nat
deriving DecidableEq

/-- `LegacySqlRow::hash_header`: what it adds to the digest. -/
def LegacySqlRow.hashHeader (c : Codec) (row : LegacySqlRow) : Bytes :=
  toLeBytes 8 (c.rowToJson row).length ++ c.rowToJson row

def hexDigit (n : Nat) : Char := "0123456789abcdef".toList.getD n '0'

/-- `{:x}` of a digest. -/
def hex (digest : Bytes) : String :=
  String.ofList (digest.flatMap fun b => [hexDigit (b.toNat / 16), hexDigit (b.toNat % 16)])

/-- The local variables of the scan. -/
structure OwnerScan where
  summary : OwnerSummary
  sqlDigest : Bytes
  sqlRow : Option LegacySqlRow
  rowBytes : Nat
  hasOtherData : Bool

def OwnerScan.start : OwnerScan :=
  { summary := ⟨0, none, false, none, 0⟩
    sqlDigest := []
    sqlRow := none
    rowBytes := 0
    hasOtherData := false }

def OwnerScan.rowComplete (scan : OwnerScan) : Bool :=
  scan.sqlRow.all fun row => row.originalBytes = scan.rowBytes

/-- Another row begins once the one before it is complete. -/
def OwnerScan.enter (c : Codec) (scan : OwnerScan) (source : LegacySqlRow) :
    Except LogError OwnerScan :=
  if scan.sqlRow = some source then .ok scan
  else do
    require (scan.rowComplete = true) .incompleteLegacySqlRow
    let sqlDigest := scan.sqlDigest ++ source.hashHeader c
    return { scan with sqlDigest, sqlRow := some source, rowBytes := 0 }

def OwnerScan.legacy (c : Codec) (scan : OwnerScan) (frame : DecodedFrame) :
    Except LogError OwnerScan :=
  match frame.metadata.legacySqlRow with
  | some source => do
    let scan ← scan.enter c source
    let rowBytes := scan.rowBytes + frame.bytes.length
    let sqlDigest := scan.sqlDigest ++ frame.bytes
    return { scan with rowBytes, sqlDigest }
  | none =>
    let hasOtherData := scan.hasOtherData || !frame.bytes.isEmpty
    return { scan with hasOtherData }

def OwnerSummary.cover (summary : OwnerSummary) (frame : DecodedFrame) : OwnerSummary :=
  { summary with
    uncompressedBytes := frame.locator.stop
    outcome := frame.metadata.outcome
    legacyCaptureMetadata := summary.legacyCaptureMetadata || frame.metadata.capturedAt.isNone
    controlBytes :=
      if frame.metadata.control then summary.controlBytes + frame.bytes.length
      else summary.controlBytes }

def OwnerScan.frame (c : Codec) (scan : OwnerScan) (frame : DecodedFrame) :
    Except LogError OwnerScan := do
  require (frame.locator.start = scan.summary.uncompressedBytes ∧ scan.summary.outcome = none)
    .noncontiguousOwner
  let scan ← scan.legacy c frame
  return { scan with summary := scan.summary.cover frame }

def OwnerScan.finish (c : Codec) (scan : OwnerScan) : Except LogError OwnerSummary := do
  if scan.sqlRow.isSome then
    require (scan.rowComplete = true) .incompleteLegacySqlRow
    if scan.hasOtherData then return scan.summary
    else return { scan.summary with
      legacySqlFingerprint := some (hex (c.sha256 scan.sqlDigest)) }
  else return scan.summary

def scanFrames (c : Codec) : Nat → Cursor UInt8 → OwnerScan → Except LogError OwnerScan
  | 0, _, scan => return scan
  | fuel + 1, reader, scan => do
    if reader.rest.isEmpty then return scan
    else
      let (frame, reader) ← readOwnerFrame c reader
      let scan ← scan.frame c frame
      scanFrames c fuel reader scan

def scanOwner (c : Codec) (owner : Bytes) : Except LogError OwnerSummary := do
  let scan ← scanFrames c owner.length ⟨0, owner⟩ .start
  scan.finish c

def validateRange (start stop : Nat) : Except LogError Unit := do
  require (start ≤ stop) .rangeEndPrecedesStart
  require (stop - start ≤ maxExecutionLogRangeBytes) .rangeExceedsPageLimit

def getRange (bytes : Bytes) (a b : Nat) : Option Bytes :=
  if a ≤ b ∧ b ≤ bytes.length then some ((bytes.drop a).take (b - a)) else none

def streamFrames (c : Codec) (start stop : Nat) :
    Nat → Cursor UInt8 → Nat → Bytes → Except LogError Bytes
  | 0, _, _, output => return output
  | fuel + 1, reader, offset, output => do
    if offset < stop ∧ !reader.rest.isEmpty then
      let (frame, reader) ← readOwnerFrame c reader
      require (frame.locator.start = offset) .noncontiguousOwner
      if start < frame.locator.stop then
        -- an index outside the frame would be a panic
        let part ← expect (getRange frame.bytes (start - offset)
          (min stop frame.locator.stop - offset)) .sliceOutOfBounds
        streamFrames c start stop fuel reader frame.locator.stop (output ++ part)
      else streamFrames c start stop fuel reader frame.locator.stop output
    else return output

def readRangeByStreamingDecode (c : Codec) (owner : Bytes) (start stop : Nat) :
    Except LogError Bytes :=
  streamFrames c start stop owner.length ⟨0, owner⟩ 0 []

/-- `take(limit).read_until(b'\n')`: the line, its newline included, and what is left. -/
def readIndexLine (index : Bytes) : Bytes × Bytes :=
  let window := index.take (maxFrameIndexLineBytes + 1)
  let line := window.takeWhile (· ≠ newline) ++ (window.dropWhile (· ≠ newline)).take 1
  (line, index.drop line.length)

/-- Locators must follow one another in both coordinates. -/
def LogFrame.follows (frame : LogFrame) (previousStop previousCompressedStop : Nat) : Prop :=
  frame.start = previousStop ∧ frame.compressedStart = previousCompressedStop ∧
    frame.compressedStart < frame.compressedStop ∧ frame.start ≤ frame.stop ∧
    frame.compressedStop - frame.compressedStart ≤ maxExecutionLogRangeBytes * 2

instance LogFrame.follows.decidable (frame : LogFrame) (a b : Nat) :
    Decidable (frame.follows a b) := by
  unfold follows
  infer_instance

def readIndexedFrames (c : Codec) (owner : Bytes) (start stop : Nat) :
    Nat → Bytes → Nat → Nat → Nat → Bytes → Except LogError Bytes
  | 0, _, _, _, covered, output =>
    if covered < stop then .error .incompleteIndex else return output
  | fuel + 1, index, previousStop, previousCompressedStop, covered, output => do
    if covered < stop then
      let (line, index) := readIndexLine index
      require (line ≠ []) .incompleteIndex
      require (line.length ≤ maxFrameIndexLineBytes ∧ line.getLast? = some newline) .tornLocator
      let frame ← expect (c.frameFromJson line) .invalidLocator
      require (frame.follows previousStop previousCompressedStop) .noncontiguousLocator
      if frame.stop ≤ start then
        readIndexedFrames c owner start stop fuel index frame.stop frame.compressedStop covered
          output
      else
        let (found, _) ← readOwnerFrame c (Cursor.seek owner frame.compressedStart)
        require (found.locator.start = frame.start ∧ found.locator.stop = frame.stop ∧
          found.locator.compressedStop = frame.compressedStop ∧
          found.locator.capturedAt = frame.capturedAt) .locatorDiffersFromOwner
        let part ← expect (getRange found.bytes (covered - frame.start)
          (min stop frame.stop - frame.start)) .rangeOutsideFrame
        readIndexedFrames c owner start stop fuel index frame.stop frame.compressedStop
          (min stop frame.stop) (output ++ part)
    else return output

def readRangeFromIndex (c : Codec) (owner : Bytes) (index : Option Bytes) (start stop : Nat) :
    Except LogError Bytes := do
  let index ← expect index .indexMissing
  readIndexedFrames c owner start stop index.length index 0 0 start []

def readRangeBlocking (c : Codec) (owner : Bytes) (index : Option Bytes) (start stop : Nat) :
    Except LogError Bytes :=
  match readRangeFromIndex c owner index start stop with
  | .ok output => .ok output
  | .error _ => readRangeByStreamingDecode c owner start stop

def readExecutionLogRangeBytes (c : Codec) (owner : Bytes) (index : Option Bytes)
    (start stop : Nat) : Except LogError Bytes := do
  validateRange start stop
  readRangeBlocking c owner index start stop

/-- What comes of syncing the owner and its directories. -/
inductive Confirmation where
  | done | unsupported | failed
deriving DecidableEq

inductive PublicationDurability where
  | confirmed | unverified

def PublicationDurability.fromConfirmation :
    Confirmation → Except LogError PublicationDurability
  | .done => .ok confirmed
  | .unsupported => .ok unverified
  | .failed => .error .storageFailed

def readExecutionLogPage (c : Codec) (owner : Bytes) (index : Option Bytes) (start stop : Nat)
    (confirmation : Confirmation) : Except LogError (Bytes × PublicationDurability) := do
  let bytes ← readExecutionLogRangeBytes c owner index start stop
  let durability ← PublicationDurability.fromConfirmation confirmation
  return (bytes, durability)

/-- Frames one after the other from an offset of the decompressed owner. -/
def Contiguous : Nat → List DecodedFrame → Prop
  | _, [] => True
  | offset, f :: frames => f.locator.start = offset ∧
      f.locator.stop = offset + f.bytes.length ∧ Contiguous f.locator.stop frames

def content (frames : List DecodedFrame) : Bytes := frames.flatMap DecodedFrame.bytes

@[simp] theorem content_nil : content [] = [] := rfl

@[simp] theorem content_cons (f : DecodedFrame) (frames : List DecodedFrame) :
    content (f :: frames) = f.bytes ++ content frames := rfl

theorem content_append (frames frames' : List DecodedFrame) :
    content (frames ++ frames') = content frames ++ content frames' := List.flatMap_append

abbrev OwnerTrace (c : Codec) (s : Cursor UInt8) (frames : List DecodedFrame) : Prop :=
  Trace (readOwnerFrame c) s frames

theorem readOwnerFrame_shrinks (h : readOwnerFrame c s = .ok (f, t)) :
    t.rest.length < s.rest.length := by
  obtain ⟨n, hn, hle, rfl⟩ := readOwnerFrame_advancing c s f t h
  rw [Cursor.advance, List.length_drop]
  omega

theorem readOwnerFrame_stop (h : readOwnerFrame c s = .ok (f, t)) :
    f.locator.stop = f.locator.start + f.bytes.length := by
  obtain ⟨used, size, h⟩ := readOwnerFrame_ok.mp h
  rw [h.stop, h.start]

theorem readOwnerFrame_position (h : readOwnerFrame c s = .ok (f, t)) :
    f.locator.compressedStart = s.position := by
  obtain ⟨used, size, h⟩ := readOwnerFrame_ok.mp h
  exact h.compressedStart

theorem decompress_ownerTrace (hc : c.RoundTrips) (ht : OwnerTrace c s frames)
    (hne : s.rest ≠ []) : c.decompress s.rest = some (content frames) := by
  induction ht with
  | done => exact absurd rfl hne
  | @item s f t frames _ hr ht ih =>
    obtain ⟨used, size, hf⟩ := readOwnerFrame_ok.mp hr
    have hle := hf.complete
    have hskip := hf.skippable
    have hsmall : ((s.rest.drop (used + 8)).take size).length < 2 ^ 32 := by
      have := hf.small
      simp only [maxCaptureMetadataBytes] at this
      rw [List.length_take]
      omega
    have hsingle := hc.singleFrame_skippable _ t.rest hsmall
    rw [hc.decompress_frames _ _ _ hf.decoded, if_neg (by omega), hskip,
      hc.decompress_frames _ _ _ hsingle, List.drop_left]
    cases hrest : t.rest with
    | nil =>
      obtain rfl : frames = [] := by
        cases ht with
        | done => rfl
        | item hne => exact absurd hrest hne
      rw [List.append_nil, if_pos (Nat.le_refl _)]
      simp
    | cons b rest =>
      rw [← hrest, ih (by rw [hrest]; exact List.cons_ne_nil _ _), hrest, if_neg (by simp)]
      simp

theorem scanFrames_ok (hfuel : s.rest.length ≤ fuel) :
    scanFrames c fuel s scan = .ok scan' ↔
      ∃ frames, OwnerTrace c s frames ∧ frames.foldlM (OwnerScan.frame c) scan = .ok scan' := by
  induction fuel generalizing s scan with
  | zero =>
    obtain ⟨p, rest⟩ := s
    obtain rfl := List.eq_nil_of_length_eq_zero (Nat.le_zero.mp hfuel)
    constructor
    · intro h
      exact ⟨[], .done, h⟩
    · rintro ⟨frames, ht, h⟩
      cases ht with
      | done => exact h
      | item hne => exact absurd rfl hne
  | succ fuel ih =>
    obtain ⟨p, rest⟩ := s
    cases rest with
    | nil =>
      constructor
      · intro h
        exact ⟨[], .done, h⟩
      · rintro ⟨frames, ht, h⟩
        cases ht with
        | done => exact h
        | item hne => exact absurd rfl hne
    | cons b rest =>
      simp only [scanFrames, List.isEmpty_cons, Bool.false_eq_true, if_false, bind_eq_ok,
        Prod.exists]
      constructor
      · rintro ⟨f, t, hr, scan₁, hf, h⟩
        have hs := readOwnerFrame_shrinks hr
        obtain ⟨frames, ht, hfold⟩ := (ih (by omega)).mp h
        refine ⟨f :: frames, .item (List.cons_ne_nil _ _) hr ht, ?_⟩
        rw [List.foldlM_cons, bind_eq_ok]
        exact ⟨scan₁, hf, hfold⟩
      · rintro ⟨frames, ht, h⟩
        cases ht with
        | @item _ f t frames _ hr ht =>
          have hs := readOwnerFrame_shrinks hr
          rw [List.foldlM_cons, bind_eq_ok] at h
          obtain ⟨scan₁, hf, hfold⟩ := h
          exact ⟨f, t, hr, scan₁, hf, (ih (by omega)).mpr ⟨frames, ht, hfold⟩⟩

theorem scanOwner_ok :
    scanOwner c owner = .ok summary ↔ ∃ frames, OwnerTrace c ⟨0, owner⟩ frames ∧
      ∃ scan, frames.foldlM (OwnerScan.frame c) .start = .ok scan ∧
        scan.finish c = .ok summary := by
  simp only [scanOwner, bind_eq_ok, scanFrames_ok (s := ⟨0, owner⟩) (Nat.le_refl owner.length)]
  constructor
  · rintro ⟨scan, ⟨frames, ht, hfold⟩, h⟩
    exact ⟨frames, ht, scan, hfold, h⟩
  · rintro ⟨frames, ht, scan, hfold, h⟩
    exact ⟨scan, ⟨frames, ht, hfold⟩, h⟩

theorem OwnerScan.frame_ok (h : OwnerScan.frame c scan f = .ok scan') :
    f.locator.start = scan.summary.uncompressedBytes ∧ scan.summary.outcome = none ∧
      scan'.summary = scan.summary.cover f := by
  simp only [OwnerScan.frame, bind_eq_ok, require_eq_ok] at h
  obtain ⟨-, ⟨hstart, hopen⟩, scan₁, hlegacy, h⟩ := h
  have hsame : scan₁.summary = scan.summary := by
    unfold legacy at hlegacy
    split at hlegacy
    · rw [bind_eq_ok] at hlegacy
      obtain ⟨scan₂, henter, hlegacy⟩ := hlegacy
      unfold enter at henter
      split at henter
      · cases henter
        cases hlegacy
        rfl
      · rw [bind_eq_ok] at henter
        obtain ⟨-, -, henter⟩ := henter
        cases henter
        cases hlegacy
        rfl
    · cases hlegacy
      rfl
  cases h
  exact ⟨hstart, hopen, by rw [hsame]⟩

theorem OwnerScan.fold_contiguous (ht : OwnerTrace c s frames)
    (h : frames.foldlM (OwnerScan.frame c) scan = .ok scan') :
    Contiguous scan.summary.uncompressedBytes frames := by
  induction ht generalizing scan with
  | done => trivial
  | @item s f t frames _ hr _ ih =>
    rw [List.foldlM_cons, bind_eq_ok] at h
    obtain ⟨scan₁, hf, hfold⟩ := h
    obtain ⟨hstart, -, hcover⟩ := OwnerScan.frame_ok hf
    have hstop := readOwnerFrame_stop hr
    have hnext := ih hfold
    rw [hcover] at hnext
    exact ⟨hstart, by rw [hstop, hstart], hnext⟩

theorem scanOwner_contiguous (h : scanOwner c owner = .ok summary) :
    ∃ frames, OwnerTrace c ⟨0, owner⟩ frames ∧ Contiguous 0 frames := by
  obtain ⟨frames, ht, scan, hfold, -⟩ := scanOwner_ok.mp h
  exact ⟨frames, ht, OwnerScan.fold_contiguous ht hfold⟩

def legacyRows (frames : List DecodedFrame) : List (LegacySqlRow × Nat) :=
  frames.filterMap fun f => f.metadata.legacySqlRow.map (·, f.bytes.length)

/-- Each row has its recorded number of bytes before the next one begins. -/
def rowsComplete : Option LegacySqlRow → Nat → List (LegacySqlRow × Nat) → Bool
  | row, n, [] => row.all fun row => row.originalBytes = n
  | row, n, (source, k) :: rest =>
    if row = some source then rowsComplete row (n + k) rest
    else (row.all fun row => row.originalBytes = n) && rowsComplete (some source) k rest

/-- Only the last of the frames may close the log. -/
def SealedLast (frames : List DecodedFrame) : Prop :=
  ∀ f ∈ frames.dropLast, f.metadata.outcome = none

namespace OwnerScan

theorem enter_complete (scan : OwnerScan) (source : LegacySqlRow) :
    (∃ scan', scan.enter c source = .ok scan' ∧ scan'.sqlRow = some source ∧
        scan'.rowBytes = if scan.sqlRow = some source then scan.rowBytes else 0) ∧
          (scan.sqlRow = some source ∨ scan.rowComplete = true) ∨
      (∀ scan', scan.enter c source ≠ .ok scan') ∧ scan.sqlRow ≠ some source ∧
        scan.rowComplete = false := by
  unfold enter
  by_cases hrow : scan.sqlRow = some source
  · rw [if_pos hrow]
    exact Or.inl ⟨⟨scan, rfl, hrow, (if_pos hrow).symm⟩, Or.inl hrow⟩
  · rw [if_neg hrow]
    cases hc : scan.rowComplete with
    | true => exact Or.inl ⟨⟨_, rfl, rfl, (if_neg hrow).symm⟩, Or.inr rfl⟩
    | false =>
      refine Or.inr ⟨?_, hrow, rfl⟩
      intro scan' h
      cases h

theorem fold_legacy (frames : List DecodedFrame) (scan : OwnerScan) :
    (∃ scan', frames.foldlM (legacy c) scan = .ok scan' ∧
        scan'.rowComplete = true) ↔
      rowsComplete scan.sqlRow scan.rowBytes (legacyRows frames) = true := by
  induction frames generalizing scan with
  | nil =>
    constructor
    · rintro ⟨scan', h, hc⟩
      cases h
      exact hc
    · intro hc
      exact ⟨scan, rfl, hc⟩
  | cons f frames ih =>
    simp only [List.foldlM_cons, bind_eq_ok]
    cases hrow : f.metadata.legacySqlRow with
    | none =>
      have hrows : legacyRows (f :: frames) = legacyRows frames := by
        simp [legacyRows, hrow]
      rw [hrows]
      have hlegacy : scan.legacy c f =
          .ok { scan with hasOtherData := scan.hasOtherData || !f.bytes.isEmpty } := by
        simp only [legacy, hrow]
        rfl
      rw [← ih { scan with hasOtherData := scan.hasOtherData || !f.bytes.isEmpty }]
      simp only [hlegacy, Except.ok.injEq, exists_eq_left']
    | some source =>
      have hrows : legacyRows (f :: frames) = (source, f.bytes.length) :: legacyRows frames := by
        simp [legacyRows, hrow]
      rw [hrows, rowsComplete]
      obtain ⟨⟨scan₁, henter, hsource, hbytes⟩, hcase⟩ | ⟨henter, hne, hincomplete⟩ :=
        enter_complete (c := c) scan source
      · have hlegacy : scan.legacy c f = .ok { scan₁ with
            rowBytes := scan₁.rowBytes + f.bytes.length
            sqlDigest := scan₁.sqlDigest ++ f.bytes } := by
          simp only [legacy, hrow, henter]
          rfl
        simp only [hlegacy, Except.ok.injEq, exists_eq_left', ih, hsource, hbytes]
        by_cases hsame : scan.sqlRow = some source
        · rw [if_pos hsame, if_pos hsame, ← hsame]
        · have hcomplete := hcase.resolve_left hsame
          unfold rowComplete at hcomplete
          rw [if_neg hsame, if_neg hsame, hcomplete, Bool.true_and, Nat.zero_add]
      · have hlegacy : ∀ scan', scan.legacy c f ≠ .ok scan' := by
          intro scan' h
          simp only [legacy, hrow, bind_eq_ok] at h
          obtain ⟨scan₁, h, -⟩ := h
          exact henter scan₁ h
        unfold rowComplete at hincomplete
        rw [if_neg hne, hincomplete, Bool.false_and]
        constructor
        · rintro ⟨scan', ⟨scan₁, h, -⟩, -⟩
          exact absurd h (hlegacy scan₁)
        · intro h
          cases h

theorem legacy_summary (scan : OwnerScan) (f : DecodedFrame) (summary : OwnerSummary) :
    ({ scan with summary } : OwnerScan).legacy c f =
      (scan.legacy c f).map fun scan' => { scan' with summary } := by
  unfold legacy
  split
  · unfold enter
    simp only
    split
    · rfl
    · have hcomplete : ({ scan with summary } : OwnerScan).rowComplete = scan.rowComplete := rfl
      rw [hcomplete]
      cases scan.rowComplete <;> rfl
  · rfl

theorem fold_legacy_summary (frames : List DecodedFrame) (scan : OwnerScan)
    (summary : OwnerSummary) :
    frames.foldlM (legacy c) ({ scan with summary } : OwnerScan) =
      (frames.foldlM (legacy c) scan).map fun scan' => { scan' with summary } := by
  induction frames generalizing scan with
  | nil => rfl
  | cons f frames ih =>
    rw [List.foldlM_cons, List.foldlM_cons, legacy_summary]
    cases scan.legacy c f with
    | error => rfl
    | ok scan₁ => exact ih scan₁

theorem fold_frame (hc : Contiguous scan.summary.uncompressedBytes frames)
    (hopen : frames ≠ [] → scan.summary.outcome = none) (hs : SealedLast frames) :
    frames.foldlM (frame c) scan =
      (frames.foldlM (legacy c) scan).map fun scan' =>
        { scan' with summary := frames.foldl OwnerSummary.cover scan.summary } := by
  induction frames generalizing scan with
  | nil => rfl
  | cons f frames ih =>
    obtain ⟨hstart, -, hnext⟩ := hc
    have hframe : scan.frame c f = (scan.legacy c f).map fun scan' =>
        { scan' with summary := scan.summary.cover f } := by
      have hsummary := legacy_summary (c := c) scan f scan.summary
      rw [frame, require, if_pos ⟨hstart, hopen (List.cons_ne_nil _ _)⟩]
      cases hl : scan.legacy c f with
      | error => rfl
      | ok scan₁ =>
        rw [hl] at hsummary
        have heq : scan₁ = { scan₁ with summary := scan.summary } := by
          simpa [Except.map] using hsummary
        change Except.ok _ = Except.ok _
        rw [show scan₁.summary = scan.summary by rw [heq]]
    rw [List.foldlM_cons, List.foldlM_cons, hframe]
    cases scan.legacy c f with
    | error => rfl
    | ok scan₁ =>
      change frames.foldlM (frame c) _ = _
      rw [ih, fold_legacy_summary]
      · cases hfold : frames.foldlM (legacy c) scan₁ with
        | error e => simp only [bind, Except.bind, hfold, Except.map]
        | ok scan₂ => simp only [bind, Except.bind, hfold, Except.map, List.foldl_cons]
      · exact hnext
      · intro hne
        apply hs f
        rw [List.dropLast_cons_of_ne_nil hne]
        exact List.mem_cons_self
      · intro g hg
        apply hs g
        cases frames with
        | nil => cases hg
        | cons h frames =>
          rw [List.dropLast_cons_of_ne_nil (List.cons_ne_nil _ _)]
          exact List.mem_cons_of_mem _ hg

end OwnerScan

def controlContent (frames : List DecodedFrame) : Bytes :=
  content (frames.filter fun f => f.metadata.control)

def sealOf (frames : List DecodedFrame) : Option CaptureOutcome :=
  frames.getLast?.bind fun f => f.metadata.outcome

theorem OwnerSummary.fold_cover (frames : List DecodedFrame) (summary : OwnerSummary)
    (hc : Contiguous summary.uncompressedBytes frames) :
    (frames.foldl OwnerSummary.cover summary).uncompressedBytes =
        summary.uncompressedBytes + (content frames).length ∧
      (frames.foldl OwnerSummary.cover summary).controlBytes =
        summary.controlBytes + (controlContent frames).length ∧
      (frames.foldl OwnerSummary.cover summary).outcome =
        if frames = [] then summary.outcome else sealOf frames := by
  induction frames generalizing summary with
  | nil => exact ⟨rfl, rfl, rfl⟩
  | cons f frames ih =>
    obtain ⟨-, hstop, hnext⟩ := hc
    obtain ⟨hbytes, hcontrol, houtcome⟩ := ih (summary.cover f) hnext
    rw [List.foldl_cons]
    refine ⟨?_, ?_, ?_⟩
    · rw [hbytes, content_cons, List.length_append, ← Nat.add_assoc, ← hstop]
      rfl
    · rw [hcontrol]
      unfold controlContent cover
      cases hf : f.metadata.control with
      | true => simp [hf, Nat.add_assoc]
      | false => simp [hf]
    · rw [houtcome]
      cases frames with
      | nil => rfl
      | cons g frames => simp [sealOf, List.getLast?_cons_cons]

theorem OwnerScan.finish_accepts (scan : OwnerScan) :
    (∃ summary, scan.finish c = .ok summary) ↔ scan.rowComplete = true := by
  unfold finish
  cases hrow : scan.sqlRow with
  | none => simp [rowComplete, hrow, pure, Except.pure]
  | some row =>
    simp only [Option.isSome_some, if_true, bind_eq_ok, require_eq_ok]
    constructor
    · rintro ⟨summary, -, h, -⟩
      exact h
    · intro h
      cases scan.hasOtherData with
      | true => exact ⟨_, (), h, rfl⟩
      | false => exact ⟨_, (), h, rfl⟩

theorem OwnerScan.finish_summary (h : OwnerScan.finish c scan = .ok found) :
    found.uncompressedBytes = scan.summary.uncompressedBytes ∧
      found.controlBytes = scan.summary.controlBytes ∧
        found.outcome = scan.summary.outcome := by
  unfold finish at h
  split at h
  · rw [bind_eq_ok] at h
    obtain ⟨-, -, h⟩ := h
    split at h
    · cases h
      exact ⟨rfl, rfl, rfl⟩
    · cases h
      exact ⟨rfl, rfl, rfl⟩
  · cases h
    exact ⟨rfl, rfl, rfl⟩

theorem scanOwner_trace (ht : OwnerTrace c ⟨0, owner⟩ frames) (hc : Contiguous 0 frames)
    (hs : SealedLast frames) :
    scanOwner c owner = .ok summary ↔
      ∃ scan, frames.foldlM (OwnerScan.legacy c) .start = .ok scan ∧
        OwnerScan.finish c
          { scan with summary := frames.foldl OwnerSummary.cover OwnerScan.start.summary } =
            .ok summary := by
  have hstart : Contiguous OwnerScan.start.summary.uncompressedBytes frames := hc
  have hframes := OwnerScan.fold_frame (c := c) hstart (fun _ => rfl) hs
  rw [scanOwner_ok]
  constructor
  · rintro ⟨frames', ht', scan, hfold, h⟩
    obtain rfl := ht.unique ht'
    rw [hframes] at hfold
    cases hl : frames.foldlM (OwnerScan.legacy c) .start with
    | error e =>
      rw [hl] at hfold
      cases hfold
    | ok scan₁ =>
      rw [hl] at hfold
      cases hfold
      exact ⟨scan₁, rfl, h⟩
  · rintro ⟨scan, hfold, h⟩
    refine ⟨frames, ht, _, ?_, h⟩
    rw [hframes, hfold]
    rfl

theorem scanOwner_accepts (ht : OwnerTrace c ⟨0, owner⟩ frames) (hc : Contiguous 0 frames)
    (hs : SealedLast frames) :
    (∃ summary, scanOwner c owner = .ok summary) ↔
      rowsComplete none 0 (legacyRows frames) = true := by
  simp only [scanOwner_trace ht hc hs]
  have hlegacy := OwnerScan.fold_legacy (c := c) frames .start
  constructor
  · rintro ⟨summary, scan, hfold, h⟩
    have hcomplete := (OwnerScan.finish_accepts _).mp ⟨summary, h⟩
    exact hlegacy.mp ⟨scan, hfold, hcomplete⟩
  · intro h
    obtain ⟨scan, hfold, hcomplete⟩ := hlegacy.mpr h
    obtain ⟨summary, hf⟩ := (OwnerScan.finish_accepts (c := c)
      { scan with summary := frames.foldl OwnerSummary.cover OwnerScan.start.summary }).mpr hcomplete
    exact ⟨summary, scan, hfold, hf⟩

theorem scanOwner_summary (ht : OwnerTrace c ⟨0, owner⟩ frames) (hc : Contiguous 0 frames)
    (hs : SealedLast frames) (h : scanOwner c owner = .ok summary) :
    summary.uncompressedBytes = (content frames).length ∧
      summary.controlBytes = (controlContent frames).length ∧
        summary.outcome = sealOf frames := by
  obtain ⟨scan, -, hf⟩ := (scanOwner_trace ht hc hs).mp h
  obtain ⟨hbytes, hcontrol, houtcome⟩ := OwnerScan.finish_summary hf
  obtain ⟨hbytes', hcontrol', houtcome'⟩ :=
    OwnerSummary.fold_cover frames OwnerScan.start.summary hc
  refine ⟨?_, ?_, ?_⟩
  · rw [hbytes, hbytes', OwnerScan.start, Nat.zero_add]
  · rw [hcontrol, hcontrol', OwnerScan.start, Nat.zero_add]
  · rw [houtcome, houtcome']
    split
    · rename_i hnil
      rw [hnil]
      rfl
    · rfl

theorem getRange_eq_some : getRange bytes a b = some part ↔
    a ≤ b ∧ b ≤ bytes.length ∧ part = (bytes.drop a).take (b - a) := by
  unfold getRange
  split
  · rename_i h
    constructor
    · intro hp
      exact ⟨h.1, h.2, (Option.some.inj hp).symm⟩
    · rintro ⟨-, -, rfl⟩
      rfl
  · rename_i h
    constructor
    · intro hp
      cases hp
    · rintro ⟨ha, hb, -⟩
      exact absurd ⟨ha, hb⟩ h

theorem streamFrames_step (hr : readOwnerFrame c s = .ok (f, t)) (hne : s.rest ≠ [])
    (hstart : f.locator.start = offset) (hstop : f.locator.stop = offset + f.bytes.length)
    (hrange : start ≤ stop) :
    streamFrames c start stop (fuel + 1) s offset output =
      if offset < stop then
        streamFrames c start stop fuel t f.locator.stop
          (output ++ window offset f.bytes start stop)
      else .ok output := by
  by_cases hlt : offset < stop
  · have hcond : offset < stop ∧ (!s.rest.isEmpty) = true := by simp [hlt, hne]
    rw [streamFrames, if_pos hcond, if_pos hlt, hr]
    simp only [hstart, require, bind, Except.bind, if_true]
    split
    · rename_i hin
      have hpart : getRange f.bytes (start - offset) (min stop f.locator.stop - offset) =
          some (window offset f.bytes start stop) := by
        rw [getRange_eq_some]
        refine ⟨by omega, by omega, ?_⟩
        rw [window, List.take_eq_take_iff, List.length_drop]
        omega
      rw [hpart]
      rfl
    · rw [window_le_start _ (by omega), List.append_nil]
  · rw [streamFrames, if_neg (fun h => hlt h.1), if_neg hlt]
    rfl

theorem streamFrames_ok (hfuel : s.rest.length ≤ fuel) (ht : OwnerTrace c s frames)
    (hc : Contiguous offset frames) (hrange : start ≤ stop) (output : Bytes) :
    streamFrames c start stop fuel s offset output =
      .ok (output ++ window offset (content frames) start stop) := by
  induction ht generalizing fuel offset output with
  | done =>
    have hw : window offset (content []) start stop = [] := by simp [window]
    rw [hw, List.append_nil]
    cases fuel with
    | zero => rfl
    | succ => simp [streamFrames, pure, Except.pure]
  | @item s f t frames hne hr _ ih =>
    obtain ⟨hstart, hstop, hnext⟩ := hc
    have hs := readOwnerFrame_shrinks hr
    obtain _ | fuel := fuel
    · omega
    rw [streamFrames_step hr hne hstart hstop hrange, content_cons, window_append, ← hstop,
      ← List.append_assoc]
    split
    · exact ih (by omega) hnext _
    · rw [window_stop_le _ (by omega), window_stop_le _ (by omega), List.append_nil,
        List.append_nil]

end Cdesktop.ExecutionLog
