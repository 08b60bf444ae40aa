import Cdesktop.LogRange

namespace Cdesktop.ExecutionLog
open RecordStream
set_option autoImplicit true

inductive LogAppend where
  | written | blocked | unavailable
deriving DecidableEq

structure ExecutionLogWriter where
  hasIndex : Bool
  written : Nat
  uncompressedOffset : Nat
  controlBytes : Nat
  freeDiskReserveBytes : Nat
  markerWritten : Bool
  poisoned : Bool
  sealed : Bool
deriving DecidableEq

structure LogFiles where
  owner : Bytes
  index : Option Bytes
deriving DecidableEq

structure Recording extends ExecutionLogWriter, LogFiles
deriving DecidableEq

/-- How the system serves the write of one segment: whether the compression task ends, how many
bytes of the record reach the owner when its write or sync fails, and how many bytes of the locator
reach the sidecar when its write fails. -/
structure SegmentIo where
  encoded : Bool
  stored : Option Nat
  indexed : Option Nat
deriving DecidableEq

def SegmentIo.sound : SegmentIo := ⟨true, none, none⟩

/-- How the system serves one call; segments past the list are served soundly. -/
structure Storage where
  availableSpace : Option Nat
  now : Time
  segments : List SegmentIo
deriving DecidableEq

abbrev Served (α : Type) := Except LogError α × Recording

/-- `?`, with the recording passed on. -/
def Served.andThen (x : Served α) (f : α → Recording → Served β) : Served β :=
  match x with
  | (.ok a, r) => f a r
  | (.error e, r) => (.error e, r)

def Recording.appendIndex (io : SegmentIo) (line : Bytes) (r : Recording) : Recording :=
  if r.hasIndex then
    match io.indexed with
    | none => { r with index := some (r.index.getD [] ++ line) }
    | some landed =>
      { r with
        index := some (r.index.getD [] ++ line.take landed)
        hasIndex := false }
  else r

def Recording.locator (r : Recording) (input record : Bytes) (capturedAt : Option Time) :
    LogFrame :=
  { start := r.uncompressedOffset
    stop := saturatingAdd r.uncompressedOffset input.length
    compressedStart := r.written
    compressedStop := saturatingAdd r.written record.length
    capturedAt }

def Recording.publish (r : Recording) (input record : Bytes) (control : Bool)
    (frame : LogFrame) : Recording :=
  { r with
    owner := r.owner ++ record
    written := frame.compressedStop
    uncompressedOffset := frame.stop
    controlBytes :=
      if control then saturatingAdd r.controlBytes input.length else r.controlBytes
    poisoned := false }

/-- Only a part of a record is known to have reached the owner. -/
def Recording.tear (r : Recording) (landed : Bytes) : Recording :=
  { r with
    owner := r.owner ++ landed
    poisoned := true }

def Recording.writeSegment (c : Codec) (io : SegmentIo) (input : Bytes)
    (capturedAt : Option Time) (control : Bool) (outcome : Option CaptureOutcome)
    (legacySqlRow : Option LegacySqlRow) (r : Recording) : Served Unit :=
  let metadata : CapturedLogMetadata :=
    { capturedAt
      captureOrder := r.uncompressedOffset
      control
      outcome
      legacySqlRow }
  if io.encoded = false then (.error .encoderFailed, r)
  else if maxCaptureMetadataBytes < (c.metadataToJson metadata).length then
    (.error .metadataExceedsCapacity, r)
  else if maxCaptureMetadataBytes < (c.compress 1 (c.metadataToJson metadata)).length then
    (.error .encodedMetadataExceedsCapacity, r)
  else
    let record := capturedRecord c input metadata
    match io.stored with
    | some landed => (.error .storageFailed, r.tear (record.take landed))
    | none =>
      let frame := r.locator input record capturedAt
      (.ok (), (r.publish input record control frame).appendIndex io
        (c.frameToJson frame ++ [newline]))

def chunks (size : Nat) : Nat → Bytes → List Bytes
  | 0, _ => []
  | fuel + 1, bytes =>
    if bytes = [] then [] else bytes.take size :: chunks size fuel (bytes.drop size)

def frameChunks (bytes : Bytes) : List Bytes :=
  chunks maxFrameUncompressedBytes bytes.length bytes

def Recording.writeSegments (c : Codec) (capturedAt : Option Time) (control : Bool)
    (legacySqlRow : Option LegacySqlRow) : List SegmentIo → List Bytes → Recording → Served Unit
  | _, [], r => (.ok (), r)
  | ios, input :: inputs, r =>
    (r.writeSegment c (ios.headD .sound) input capturedAt control none legacySqlRow).andThen
      fun _ r => r.writeSegments c capturedAt control legacySqlRow ios.tail inputs

def Recording.writeFrame (c : Codec) (io : Storage) (bytes : Bytes) (capturedAt : Option Time)
    (control : Bool) (r : Recording) : Served Unit :=
  r.writeSegments c capturedAt control none io.segments (frameChunks bytes)

def Recording.ensureWritable (r : Recording) : Served Unit :=
  if r.poisoned || r.sealed then (.error .requiresRecovery, r) else (.ok (), r)

/-- Room for the payload and frame overhead above the reserve. -/
def Recording.hasDiskReserve (io : Storage) (incoming : Nat) (r : Recording) : Served Bool :=
  match io.availableSpace with
  | none => (.error .spaceUnknown, r)
  | some space =>
    (.ok (saturatingAdd (saturatingAdd r.freeDiskReserveBytes incoming) (8 * 1024) ≤ space), r)

def Recording.hasControlSpace (io : Storage) (incoming : Nat) (r : Recording) : Served Bool :=
  match io.availableSpace with
  | none => (.error .spaceUnknown, r)
  | some space => (.ok (saturatingAdd incoming (8 * 1024) ≤ space), r)

def Recording.appendControlLine (c : Codec) (line : Bytes) (io : Storage) (r : Recording) :
    Served LogAppend :=
  r.ensureWritable.andThen fun _ r =>
  if controlOverdraftBytes < saturatingAdd r.controlBytes line.length then (.ok .blocked, r)
  else (r.hasControlSpace io line.length).andThen fun admitted r =>
  if admitted then
    (r.writeFrame c io line (some io.now) true).andThen fun _ r => (.ok .written, r)
  else (.ok .unavailable, r)

def unavailableMarker : LogMsg :=
  .stderr "[cdesktop] execution recording stopped: blocked(disk-reserve)"

def markerLine (c : Codec) : Option Bytes := (c.messageToJson unavailableMarker).map (· ++ [newline])

def Recording.publishUnavailableMarker (c : Codec) (io : Storage) (r : Recording) : Served Unit :=
  if r.markerWritten then (.ok (), r)
  else
    let r := { r with markerWritten := true }
    match markerLine c with
    | none => (.ok (), r)
    | some line => (r.appendControlLine c line io).andThen fun _ r => (.ok (), r)

def Recording.appendJsonlLine (c : Codec) (line : Bytes) (io marker : Storage) (r : Recording) :
    Served LogAppend :=
  r.ensureWritable.andThen fun _ r =>
  (r.hasDiskReserve io line.length).andThen fun admitted r =>
  if admitted then
    (r.writeFrame c io line (some io.now) false).andThen fun _ r => (.ok .written, r)
  else (r.publishUnavailableMarker c marker).andThen fun _ r => (.ok .unavailable, r)

def Recording.appendLegacyBytes (c : Codec) (bytes : Bytes) (source : Option LegacySqlRow)
    (io : Storage) (r : Recording) : Served LogAppend :=
  r.ensureWritable.andThen fun _ r =>
  (r.hasDiskReserve io bytes.length).andThen fun admitted r =>
  if admitted then
    let inputs := if bytes = [] then [[]] else frameChunks bytes
    (r.writeSegments c none false source io.segments inputs).andThen fun _ r => (.ok .written, r)
  else (.ok .unavailable, r)

def Recording.finish (c : Codec) (outcome : CaptureOutcome) (io : Storage) (r : Recording) :
    Served Unit :=
  r.ensureWritable.andThen fun _ r =>
  (r.hasControlSpace io 0).andThen fun admitted r =>
  if admitted then
    (r.writeSegment c (io.segments.headD .sound) [] (some io.now) true (some outcome) none).andThen
      fun _ r => (.ok (), { r with sealed := true })
  else (.error .cannotPersistOutcome, r)

/-- Opening creates what is missing and takes the owner's own account of what it holds; the sidecar
may be out of reach. -/
def openLog (c : Codec) (reserve : Nat) (hasIndex : Bool) (owner index : Option Bytes) :
    Except LogError Recording × LogFiles :=
  let files : LogFiles :=
    { owner := owner.getD []
      index := if hasIndex then some (index.getD []) else index }
  match scanOwner c files.owner with
  | .error e => (.error e, files)
  | .ok recovered =>
    let writer : ExecutionLogWriter :=
      { hasIndex
        -- the length the system reports is a `u64`
        written := min files.owner.length maxU64
        uncompressedOffset := recovered.uncompressedBytes
        controlBytes := recovered.controlBytes
        freeDiskReserveBytes := reserve
        markerWritten := false
        poisoned := false
        sealed := recovered.outcome.isSome }
    (.ok ⟨writer, files⟩, files)

theorem openLog_cases (c : Codec) (reserve : Nat) (hasIndex : Bool) (owner index : Option Bytes) :
    ∃ files : LogFiles, files.owner = owner.getD [] ∧
      files.index = (if hasIndex then some (index.getD []) else index) ∧
      ((∃ e, scanOwner c files.owner = .error e ∧
        openLog c reserve hasIndex owner index = (.error e, files)) ∨
      ∃ summary, scanOwner c files.owner = .ok summary ∧
        openLog c reserve hasIndex owner index =
          (.ok ⟨{ hasIndex
                  written := min files.owner.length maxU64
                  uncompressedOffset := summary.uncompressedBytes
                  controlBytes := summary.controlBytes
                  freeDiskReserveBytes := reserve
                  markerWritten := false
                  poisoned := false
                  sealed := summary.outcome.isSome }, files⟩, files)) := by
  refine ⟨⟨owner.getD [], if hasIndex then some (index.getD []) else index⟩, rfl, rfl, ?_⟩
  unfold openLog
  simp only
  cases h : scanOwner c (owner.getD []) with
  | error e => exact Or.inl ⟨e, rfl, rfl⟩
  | ok summary => exact Or.inr ⟨summary, rfl, rfl⟩

theorem chunks_spec (size fuel : Nat) (bytes : Bytes) (hsize : 0 < size)
    (hfuel : bytes.length ≤ fuel) :
    (chunks size fuel bytes).flatten = bytes ∧
      ∀ chunk ∈ chunks size fuel bytes, chunk.length ≤ size := by
  induction fuel generalizing bytes with
  | zero =>
    obtain rfl := List.eq_nil_of_length_eq_zero (Nat.le_zero.mp hfuel)
    exact ⟨rfl, fun chunk h => by cases h⟩
  | succ fuel ih =>
    rw [chunks]
    split
    · rename_i hnil
      exact ⟨hnil.symm, fun chunk h => by cases h⟩
    · rename_i hne
      have hpos := List.length_pos_iff.mpr hne
      obtain ⟨hflat, hall⟩ := ih (bytes.drop size) (by rw [List.length_drop]; omega)
      refine ⟨?_, ?_⟩
      · rw [List.flatten_cons, hflat, List.take_append_drop]
      · intro chunk h
        cases h with
        | head => exact List.length_take_le _ _
        | tail _ h => exact hall chunk h

theorem frameChunks_flatten (bytes : Bytes) : (frameChunks bytes).flatten = bytes :=
  (chunks_spec _ _ _ (by decide) (Nat.le_refl _)).1

theorem frameChunks_length (bytes : Bytes) :
    ∀ chunk ∈ frameChunks bytes, chunk.length ≤ maxFrameUncompressedBytes :=
  (chunks_spec _ _ _ (by decide) (Nat.le_refl _)).2

def MetadataFits (c : Codec) (m : CapturedLogMetadata) : Prop :=
  (c.metadataToJson m).length ≤ maxCaptureMetadataBytes ∧
    (c.compress 1 (c.metadataToJson m)).length ≤ maxCaptureMetadataBytes

theorem Recording.writeSegment_cases {r : Recording} {control : Bool}
    (hm : m = ⟨capturedAt, r.uncompressedOffset, control, outcome, legacySqlRow⟩)
    (h : r.writeSegment c io input capturedAt control outcome legacySqlRow = (result, r')) :
    ((∃ e, result = .error e) ∧ r' = r ∧ (io.encoded = false ∨ ¬ MetadataFits c m)) ∨
      (result = .error .storageFailed ∧ ∃ landed, io.stored = some landed ∧
        r' = r.tear ((capturedRecord c input m).take landed)) ∨
      (result = .ok () ∧ io.stored = none ∧ MetadataFits c m ∧
        r' = (r.publish input (capturedRecord c input m) control
          (r.locator input (capturedRecord c input m) capturedAt)).appendIndex io
            (c.frameToJson (r.locator input (capturedRecord c input m) capturedAt) ++
              [newline])) := by
  subst hm
  unfold writeSegment at h
  simp only at h
  split at h
  · rename_i hio
    cases h
    exact Or.inl ⟨⟨_, rfl⟩, rfl, Or.inl hio⟩
  split at h
  · rename_i hjson
    cases h
    refine Or.inl ⟨⟨_, rfl⟩, rfl, Or.inr ?_⟩
    intro hfits
    exact absurd hfits.1 (Nat.not_le.mpr hjson)
  rename_i hjson
  split at h
  · rename_i hencoded
    cases h
    refine Or.inl ⟨⟨_, rfl⟩, rfl, Or.inr ?_⟩
    intro hfits
    exact absurd hfits.2 (Nat.not_le.mpr hencoded)
  rename_i hencoded
  have hfits : MetadataFits c
      ⟨capturedAt, r.uncompressedOffset, control, outcome, legacySqlRow⟩ :=
    ⟨Nat.not_lt.mp hjson, Nat.not_lt.mp hencoded⟩
  cases hs : io.stored with
  | some landed =>
    rw [hs] at h
    cases h
    exact Or.inr (Or.inl ⟨rfl, landed, rfl, rfl⟩)
  | none =>
    rw [hs] at h
    cases h
    exact Or.inr (Or.inr ⟨rfl, rfl, hfits, rfl⟩)

end Cdesktop.ExecutionLog
