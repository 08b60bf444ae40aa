import Cdesktop.Config
import Cdesktop.RecordStream
import Mathlib.Data.List.TakeDrop
import Mathlib.Algebra.Ring.Nat

namespace Cdesktop.ExecutionLog
open RecordStream
set_option autoImplicit true

abbrev Bytes := List UInt8

inductive LogMsg where
  | stdout (text : String)
  | stderr (text : String)
  | jsonPatch (patch : String)
  | sessionId (id : String)
  | messageId (id : String)
  | ready
  | finished
deriving DecidableEq

structure LegacySqlRow where
  rowId : Int
  insertedAt : String
  reportedByteSize : Int
  originalBytes : Nat
deriving DecidableEq

inductive CaptureOutcome where
  | complete | unavailable | legacyUnknown
deriving DecidableEq

structure CapturedLogMetadata where
  capturedAt : Option Time
  captureOrder : Nat
  control : Bool
  outcome : Option CaptureOutcome
  legacySqlRow : Option LegacySqlRow

structure LogFrame where
  start : Nat
  stop : Nat
  compressedStart : Nat
  compressedStop : Nat
  capturedAt : Option Time

structure DecodedFrame where
  locator : LogFrame
  metadata : CapturedLogMetadata
  bytes : Bytes

inductive LogError where
  | undecodable | unexpectedEof | oversizedFrame | missingCaptureMetadata
  | oversizedCaptureMetadata | oversizedDecodedMetadata | invalidMetadata | invalidSourceRange
  | noncontiguousOwner | incompleteLegacySqlRow
  | indexMissing | incompleteIndex | tornLocator | invalidLocator | noncontiguousLocator
  | locatorDiffersFromOwner | rangeOutsideFrame | sliceOutOfBounds
  | rangeEndPrecedesStart | rangeExceedsPageLimit
  | requiresRecovery | cannotPersistOutcome | metadataExceedsCapacity
  | encodedMetadataExceedsCapacity | encoderFailed | storageFailed | spaceUnknown
  | streamFailed | drainExpired | recordingUnavailable | unserializable
  | dataAfterSeal | invalidPageSize | invalidUtf8
deriving DecidableEq

def maxFrameUncompressedBytes : Nat := 64 * 1024
def maxCaptureMetadataBytes : Nat := 4096
def zstdSkippableFrameMagic : Nat := 0x184D2A50
def controlOverdraftBytes : Nat := 64 * 1024
def maxExecutionLogRangeBytes : Nat := 1024 * 1024
def maxFrameIndexLineBytes : Nat := 512
def maxU64 : Nat := 2 ^ 64 - 1
def newline : UInt8 := 10

def saturatingAdd (a b : Nat) : Nat := min (a + b) maxU64

def checkedAdd (a b : Nat) : Option Nat := if a + b ≤ maxU64 then some (a + b) else none

def toLeBytes : Nat → Nat → Bytes
  | 0, _ => []
  | width + 1, n => UInt8.ofNat n :: toLeBytes width (n / 256)

def fromLeBytes : Bytes → Nat
  | [] => 0
  | b :: bs => b.toNat + 256 * fromLeBytes bs

@[simp] theorem toLeBytes_length (width n : Nat) : (toLeBytes width n).length = width := by
  induction width generalizing n with
  | zero => rfl
  | succ width ih => simp [toLeBytes, ih]

theorem fromLeBytes_toLeBytes (width n : Nat) (h : n < 256 ^ width) :
    fromLeBytes (toLeBytes width n) = n := by
  induction width generalizing n with
  | zero => simp at h; simp [toLeBytes, fromLeBytes, h]
  | succ width ih =>
    have hn : n / 256 < 256 ^ width := by
      rw [Nat.div_lt_iff_lt_mul (by decide)]
      rwa [Nat.pow_succ] at h
    simp only [toLeBytes, fromLeBytes, ih _ hn, UInt8.toNat_ofNat']
    omega

theorem toLeBytes_fromLeBytes (bytes : Bytes) :
    toLeBytes bytes.length (fromLeBytes bytes) = bytes := by
  induction bytes with
  | nil => rfl
  | cons b bytes ih =>
    have hb := b.toNat_lt
    have hdiv : (b.toNat + 256 * fromLeBytes bytes) / 256 = fromLeBytes bytes := by omega
    have hmod : UInt8.ofNat (b.toNat + 256 * fromLeBytes bytes) = b := by
      apply UInt8.toNat_inj.mp
      rw [UInt8.toNat_ofNat']
      omega
    simp only [List.length_cons, toLeBytes, fromLeBytes, hdiv, hmod, ih]

theorem fromLeBytes_lt (bytes : Bytes) : fromLeBytes bytes < 256 ^ bytes.length := by
  induction bytes with
  | nil => simp [fromLeBytes]
  | cons b bytes ih =>
    have hb := b.toNat_lt
    simp only [fromLeBytes, List.length_cons, Nat.pow_succ]
    omega

structure Codec where
  /-- `zstd::stream::Encoder` with checksum, at a level. -/
  compress : Nat → Bytes → Bytes
  /-- `Decoder::with_buffer(..).single_frame()`: the decoded bytes and the input bytes used. -/
  singleFrame : Bytes → Option (Bytes × Nat)
  /-- `Decoder::new`: everything the frames of the input decode to. -/
  decompress : Bytes → Option Bytes
  metadataToJson : CapturedLogMetadata → Bytes
  metadataFromJson : Bytes → Option CapturedLogMetadata
  frameToJson : LogFrame → Bytes
  frameFromJson : Bytes → Option LogFrame
  rowToJson : LegacySqlRow → Bytes
  messageToJson : LogMsg → Option Bytes
  sha256 : Bytes → Bytes

def skippableFrame (content : Bytes) : Bytes :=
  toLeBytes 4 zstdSkippableFrameMagic ++ toLeBytes 4 content.length ++ content

@[simp] theorem skippableFrame_length (content : Bytes) :
    (skippableFrame content).length = 8 + content.length := by
  simp only [skippableFrame, List.length_append, toLeBytes_length]

/-- Decoding what was encoded is the identity, whatever follows it; a skippable frame decodes to
nothing, and frames one after the other decode to their contents one after the other. -/
structure Codec.RoundTrips (c : Codec) : Prop where
  singleFrame_compress : ∀ level bytes tail,
    c.singleFrame (c.compress level bytes ++ tail) =
      some (bytes, (c.compress level bytes).length)
  singleFrame_skippable : ∀ content tail, content.length < 2 ^ 32 →
    c.singleFrame (skippableFrame content ++ tail) = some ([], (skippableFrame content).length)
  decompress_frames : ∀ input bytes used, c.singleFrame input = some (bytes, used) →
    c.decompress input =
      if input.length ≤ used then some bytes
      else (c.decompress (input.drop used)).map (bytes ++ ·)
  metadata_json : ∀ m, c.metadataFromJson (c.metadataToJson m) = some m
  frame_json : ∀ f, c.frameFromJson (c.frameToJson f ++ [newline]) = some f
  frame_line : ∀ f, newline ∉ c.frameToJson f

theorem Codec.RoundTrips.decompress_compress {c : Codec} (hc : c.RoundTrips) (level : Nat)
    (bytes : Bytes) : c.decompress (c.compress level bytes) = some bytes := by
  have h := hc.singleFrame_compress level bytes []
  rw [List.append_nil] at h
  rw [hc.decompress_frames _ _ _ h, if_pos (Nat.le_refl _)]

/-- A compressed frame ends where it says it ends, whatever follows it. -/
def Codec.SelfDelimiting (c : Codec) : Prop :=
  ∀ input bytes used, c.singleFrame input = some (bytes, used) →
    ∀ tail, c.singleFrame (input.take used ++ tail) = some (bytes, used)

def require (p : Prop) [Decidable p] (e : LogError) : Except LogError Unit :=
  if p then .ok () else .error e

def expect (o : Option α) (e : LogError) : Except LogError α :=
  match o with
  | some a => .ok a
  | none => .error e

theorem bind_eq_ok {x : Except LogError α} {f : α → Except LogError β} :
    x >>= f = .ok b ↔ ∃ a, x = .ok a ∧ f a = .ok b := by
  cases x <;> simp [bind, Except.bind]

@[simp] theorem require_eq_ok {p : Prop} [Decidable p] : require p e = .ok u ↔ p := by
  unfold require
  split <;> simp [*]

@[simp] theorem expect_eq_ok {o : Option α} : expect o e = .ok a ↔ o = some a := by
  cases o <;> simp [expect]

def readExact (n : Nat) (reader : Cursor UInt8) : Except LogError (Bytes × Cursor UInt8) := do
  require (n ≤ reader.rest.length) .unexpectedEof
  return (reader.rest.take n, reader.advance n)

def readOwnerFrame (c : Codec) (reader : Cursor UInt8) :
    Except LogError (DecodedFrame × Cursor UInt8) := do
  let compressedStart := reader.position
  let (decoded, used) ← expect (c.singleFrame reader.rest) .undecodable
  let reader := reader.advance used
  let bytes := decoded.take (maxFrameUncompressedBytes + 1)
  require (bytes.length ≤ maxFrameUncompressedBytes) .oversizedFrame
  let (header, reader) ← readExact 8 reader
  require (fromLeBytes (header.take 4) = zstdSkippableFrameMagic) .missingCaptureMetadata
  let size := fromLeBytes (header.drop 4)
  require (size ≤ maxCaptureMetadataBytes) .oversizedCaptureMetadata
  let (encoded, reader) ← readExact size reader
  let metadata ← expect (c.decompress encoded) .undecodable
  let metadata := metadata.take (maxCaptureMetadataBytes + 1)
  require (metadata.length ≤ maxCaptureMetadataBytes) .oversizedDecodedMetadata
  let metadata ← expect (c.metadataFromJson metadata) .invalidMetadata
  let stop ← expect (checkedAdd metadata.captureOrder bytes.length) .invalidSourceRange
  let locator : LogFrame :=
    { start := metadata.captureOrder
      stop
      compressedStart
      compressedStop := reader.position
      capturedAt := metadata.capturedAt }
  return (⟨locator, metadata, bytes⟩, reader)

theorem readExact_ok {reader : Cursor UInt8} :
    readExact n reader = .ok (a, t) ↔
      n ≤ reader.rest.length ∧ a = reader.rest.take n ∧ t = reader.advance n := by
  simp only [readExact, bind_eq_ok, require_eq_ok, pure, Except.pure, Except.ok.injEq,
    Prod.mk.injEq, exists_and_left]
  constructor
  · rintro ⟨h, rfl, -, rfl⟩
    exact ⟨h, rfl, rfl⟩
  · rintro ⟨h, rfl, rfl⟩
    exact ⟨h, rfl, (), rfl⟩

structure FrameRead (c : Codec) (s : Cursor UInt8) (used size : Nat) (f : DecodedFrame)
    (t : Cursor UInt8) : Prop where
  decoded : c.singleFrame s.rest = some (f.bytes, used)
  bounded : f.bytes.length ≤ maxFrameUncompressedBytes
  headed : used + 8 ≤ s.rest.length
  complete : used + 8 + size ≤ s.rest.length
  magic : fromLeBytes ((s.rest.drop used).take 4) = zstdSkippableFrameMagic
  sized : fromLeBytes (((s.rest.drop used).take 8).drop 4) = size
  small : size ≤ maxCaptureMetadataBytes
  metadata : ∃ json, c.decompress ((s.rest.drop (used + 8)).take size) = some json ∧
    json.length ≤ maxCaptureMetadataBytes ∧ c.metadataFromJson json = some f.metadata
  start : f.locator.start = f.metadata.captureOrder
  stop : f.locator.stop = f.metadata.captureOrder + f.bytes.length
  fits : f.locator.stop ≤ maxU64
  compressedStart : f.locator.compressedStart = s.position
  compressedStop : f.locator.compressedStop = t.position
  capturedAt : f.locator.capturedAt = f.metadata.capturedAt
  next : t = s.advance (used + 8 + size)

theorem take_succ_le {l : List α} (h : (l.take (n + 1)).length ≤ n) : l.take (n + 1) = l := by
  apply List.take_of_length_le
  rw [List.length_take] at h
  omega

theorem checkedAdd_eq_some : checkedAdd a b = some n ↔ n = a + b ∧ a + b ≤ maxU64 := by
  unfold checkedAdd
  split
  · constructor
    · intro h
      exact ⟨(Option.some.inj h).symm, ‹_›⟩
    · rintro ⟨rfl, -⟩
      rfl
  · constructor
    · intro h
      cases h
    · rintro ⟨-, h⟩
      exact absurd h ‹_›

theorem readOwnerFrame_ok :
    readOwnerFrame c s = .ok (f, t) ↔ ∃ used size, FrameRead c s used size f t := by
  constructor
  · intro h
    simp only [readOwnerFrame, bind_eq_ok, expect_eq_ok, require_eq_ok, Prod.exists,
      readExact_ok, pure, Except.pure, Except.ok.injEq, Prod.mk.injEq, checkedAdd_eq_some] at h
    obtain ⟨decoded, used, hd, -, hb, header, r, ⟨hh, rfl, rfl⟩, -, hm, -, hs, encoded, r',
      ⟨he, rfl, rfl⟩, json, hj, -, hjl, m, hmj, stop, ⟨rfl, hf⟩, hfeq, rfl⟩ := h
    have hdt := take_succ_le hb
    rw [hdt] at hb hf hfeq
    have hjt := take_succ_le hjl
    rw [hjt] at hjl hmj
    subst hfeq
    simp only [Cursor.advance, List.length_drop, List.drop_drop] at hh he hm hj hs
    refine ⟨used, _, ⟨hd, hb, ?_, ?_, ?_, rfl, hs, ⟨json, hj, hjl, hmj⟩, rfl, rfl, hf, rfl, rfl, rfl, ?_⟩⟩
    · omega
    · omega
    · rw [List.take_take] at hm; exact hm
    · simp only [Cursor.advance, List.drop_drop, Nat.add_assoc]
  · rintro ⟨used, size, h⟩
    obtain ⟨json, hj, hjl, hmj⟩ := h.metadata
    have hb := h.bounded
    have hdt : f.bytes.take (maxFrameUncompressedBytes + 1) = f.bytes :=
      List.take_of_length_le (by omega)
    have hjt : json.take (maxCaptureMetadataBytes + 1) = json :=
      List.take_of_length_le (by omega)
    simp only [readOwnerFrame, bind_eq_ok, expect_eq_ok, require_eq_ok, Prod.exists,
      readExact_ok, pure, Except.pure, Except.ok.injEq, Prod.mk.injEq, checkedAdd_eq_some]
    have hheaded := h.headed
    have hcomplete := h.complete
    have hstop := h.stop
    have hfits := h.fits
    refine ⟨f.bytes, used, h.decoded, (), ?_, _, _, ⟨?_, rfl, rfl⟩, (), ?_, (), ?_, _, _,
      ⟨?_, rfl, rfl⟩, json, ?_, (), ?_, f.metadata, ?_, _, ⟨rfl, ?_⟩, ?_, ?_⟩
    · rwa [hdt]
    · simp only [Cursor.advance, List.length_drop]
      omega
    · simp only [Cursor.advance, List.take_take]
      exact h.magic
    · simp only [Cursor.advance, h.sized]
      exact h.small
    · simp only [Cursor.advance, h.sized, List.length_drop]
      omega
    · simp only [Cursor.advance, h.sized, List.drop_drop]
      exact hj
    · rwa [hjt]
    · rwa [hjt]
    · rw [hdt]; omega
    · have hs := h.start
      have hcs := h.compressedStart
      have hce := h.compressedStop
      have hca := h.capturedAt
      obtain ⟨⟨start, stop, cstart, cstop, at'⟩, metadata, bytes⟩ := f
      simp only at hs hstop hcs hce hca hdt
      subst hs hstop hcs hce hca
      simp only [hdt, h.next, Cursor.advance, h.sized, Nat.add_assoc]
    · simp only [h.next, Cursor.advance, h.sized, List.drop_drop, Nat.add_assoc]

theorem skippableFrame_of_header {input : Bytes}
    (hmagic : fromLeBytes (input.take 4) = zstdSkippableFrameMagic)
    (hsize : fromLeBytes ((input.take 8).drop 4) = size) (hle : 8 + size ≤ input.length) :
    input = skippableFrame ((input.drop 8).take size) ++ input.drop (8 + size) := by
  have hlen : (input.take 4).length = 4 := by
    rw [List.length_take]
    omega
  have hlen' : ((input.take 8).drop 4).length = 4 := by
    rw [List.length_drop, List.length_take]
    omega
  have hcontent : ((input.drop 8).take size).length = size := by
    rw [List.length_take, List.length_drop]
    omega
  have hm := toLeBytes_fromLeBytes (input.take 4)
  have hs := toLeBytes_fromLeBytes ((input.take 8).drop 4)
  rw [hlen, hmagic] at hm
  rw [hlen', hsize] at hs
  rw [skippableFrame, hcontent, hm, hs, ← List.drop_drop]
  have h8 : (input.take 8).take 4 = input.take 4 := by rw [List.take_take]; rfl
  rw [← h8, List.take_append_drop, List.append_assoc, List.take_append_drop,
    List.take_append_drop]

theorem FrameRead.skippable (h : FrameRead c s used size f t) :
    s.rest.drop used = skippableFrame ((s.rest.drop (used + 8)).take size) ++ t.rest := by
  have hle := h.complete
  have hsplit := skippableFrame_of_header h.magic h.sized (by rw [List.length_drop]; omega)
  rw [List.drop_drop, List.drop_drop, ← Nat.add_assoc] at hsplit
  rw [h.next]
  exact hsplit

theorem readOwnerFrame_advancing (c : Codec) : Advancing (readOwnerFrame c) := by
  intro s f t h
  obtain ⟨used, size, h⟩ := readOwnerFrame_ok.mp h
  exact ⟨used + 8 + size, by omega, h.complete, h.next⟩

theorem FrameRead.append (hc : c.SelfDelimiting) (h : FrameRead c s used size f t)
    (tail : Bytes) :
    FrameRead c ⟨s.position, s.rest.take (used + 8 + size) ++ tail⟩ used size f
      ⟨t.position, tail⟩ := by
  have hle := h.complete
  have hlen : (s.rest.take (used + 8 + size)).length = used + 8 + size := by
    rw [List.length_take]
    omega
  have htake : ∀ n k, n + k ≤ used + 8 + size →
      ((s.rest.take (used + 8 + size) ++ tail).drop n).take k = (s.rest.drop n).take k := by
    intro n k hk
    rw [List.drop_append_of_le_length (by omega), List.take_append_of_le_length
      (by rw [List.length_drop]; omega), List.drop_take, List.take_take]
    congr 1
    omega
  have hsplit : s.rest.take used ++ (s.rest.take (used + 8 + size)).drop used =
      s.rest.take (used + 8 + size) := by
    have := List.take_append_drop used (s.rest.take (used + 8 + size))
    rwa [List.take_take, Nat.min_eq_left (by omega)] at this
  have hdecoded := hc s.rest f.bytes used h.decoded
    ((s.rest.take (used + 8 + size)).drop used ++ tail)
  rw [← List.append_assoc, hsplit] at hdecoded
  refine
    { decoded := hdecoded
      bounded := h.bounded
      headed := ?_
      complete := ?_
      magic := ?_
      sized := ?_
      small := h.small
      metadata := ?_
      start := h.start
      stop := h.stop
      fits := h.fits
      compressedStart := h.compressedStart
      compressedStop := h.compressedStop
      capturedAt := h.capturedAt
      next := ?_ }
  · rw [List.length_append, hlen]
    omega
  · rw [List.length_append, hlen]
    omega
  · rw [htake used 4 (by omega)]
    exact h.magic
  · rw [htake used 8 (by omega)]
    exact h.sized
  · rw [htake (used + 8) size (Nat.le_refl _)]
    exact h.metadata
  · simp only [h.next, Cursor.advance, Cursor.mk.injEq, true_and]
    rw [List.drop_append_of_le_length (by omega), List.drop_of_length_le (by omega)]
    rfl

theorem readOwnerFrame_local (hc : c.SelfDelimiting) : Local (readOwnerFrame c) := by
  intro s f t h
  obtain ⟨used, size, h⟩ := readOwnerFrame_ok.mp h
  have hle := h.complete
  have hlen : (s.rest.take (used + 8 + size)).length = used + 8 + size := by
    rw [List.length_take]
    omega
  refine ⟨s.rest.take (used + 8 + size), ?_, ?_, ?_⟩
  · rw [h.next]
    exact (List.take_append_drop _ _).symm
  · intro he
    rw [he, List.length_nil] at hlen
    omega
  · intro tail
    rw [readOwnerFrame_ok]
    have := h.append hc tail
    rw [h.next] at this
    exact ⟨used, size, by rwa [hlen]⟩

def writtenFrame (p : Nat) (input : Bytes) (m : CapturedLogMetadata) (size : Nat) :
    DecodedFrame :=
  { locator :=
      { start := m.captureOrder
        stop := m.captureOrder + input.length
        compressedStart := p
        compressedStop := p + size
        capturedAt := m.capturedAt }
    metadata := m
    bytes := input }

def capturedRecord (c : Codec) (input : Bytes) (m : CapturedLogMetadata) : Bytes :=
  c.compress 3 input ++ skippableFrame (c.compress 1 (c.metadataToJson m))

theorem reads_record (hc : c.RoundTrips) (p : Nat)
    (hinput : input.length ≤ maxFrameUncompressedBytes)
    (hjson : (c.metadataToJson m).length ≤ maxCaptureMetadataBytes)
    (hencoded : (c.compress 1 (c.metadataToJson m)).length ≤ maxCaptureMetadataBytes)
    (hfits : m.captureOrder + input.length ≤ maxU64) :
    Reads (readOwnerFrame c) p (capturedRecord c input m)
      (writtenFrame p input m (capturedRecord c input m).length) := by
  unfold capturedRecord
  have hne : (c.compress 3 input ++ skippableFrame (c.compress 1 (c.metadataToJson m))) ≠ [] := by
    intro h
    have := congrArg List.length h
    rw [List.length_append, skippableFrame_length, List.length_nil] at this
    omega
  refine ⟨hne, fun tail => readOwnerFrame_ok.mpr ?_⟩
  generalize hx : c.compress 3 input = compressed
  generalize hy : c.compress 1 (c.metadataToJson m) = encoded at hencoded ⊢
  have hdrop : (compressed ++ skippableFrame encoded ++ tail).drop compressed.length =
      skippableFrame encoded ++ tail := by
    rw [List.append_assoc, List.drop_left]
  have hsize : encoded.length < 256 ^ 4 := by
    simp only [maxCaptureMetadataBytes] at hencoded
    omega
  refine ⟨compressed.length, encoded.length,
    { decoded := ?_
      bounded := hinput
      headed := ?_
      complete := ?_
      magic := ?_
      sized := ?_
      small := hencoded
      metadata := ⟨c.metadataToJson m, ?_, hjson, hc.metadata_json m⟩
      start := rfl
      stop := rfl
      fits := hfits
      compressedStart := rfl
      compressedStop := rfl
      capturedAt := rfl
      next := ?_ }⟩
  · rw [List.append_assoc, ← hx]
    exact hc.singleFrame_compress 3 input _
  · simp only [List.length_append, skippableFrame_length]
    omega
  · simp only [List.length_append, skippableFrame_length]
    omega
  · rw [hdrop, skippableFrame, List.append_assoc, List.append_assoc]
    rw [List.take_left' (toLeBytes_length _ _), fromLeBytes_toLeBytes _ _ (by decide)]
  · rw [hdrop, skippableFrame, List.append_assoc, List.take_left' (by simp),
      List.drop_left' (toLeBytes_length _ _), fromLeBytes_toLeBytes _ _ hsize]
  · rw [← List.drop_drop, hdrop, skippableFrame, List.append_assoc, List.drop_left' (by simp),
      List.take_left, ← hy]
    exact hc.decompress_compress 1 _
  · simp only [Cursor.advance, Cursor.mk.injEq, List.length_append, skippableFrame_length,
      Nat.add_assoc, true_and]
    rw [← Nat.add_assoc, List.drop_left' (by simp [Nat.add_assoc])]

def storedHeader : Bytes := [0x28, 0xB5, 0x2F, 0xFD, 0, 0]

def storedBlocks : Bytes → Bytes
  | [] => [1, 0, 0]
  | b :: bytes => 8 :: 0 :: 0 :: b :: storedBlocks bytes

def readStoredBlocks : Bytes → Option (Bytes × Nat)
  | [head, middle, high] => if [head, middle, high] = [1, 0, 0] then some ([], 3) else none
  | head :: middle :: high :: b :: rest =>
    if [head, middle, high] = [1, 0, 0] then some ([], 3)
    else if [head, middle, high] = [8, 0, 0] then
      (readStoredBlocks rest).map fun (bytes, used) => (b :: bytes, used + 4)
    else none
  | _ => none

def storedFrame (input : Bytes) : Option (Bytes × Nat) :=
  if input.take 4 = toLeBytes 4 zstdSkippableFrameMagic then
    let size := 8 + fromLeBytes ((input.drop 4).take 4)
    if size ≤ input.length then some ([], size) else none
  else if input.take 6 = storedHeader then
    (readStoredBlocks (input.drop 6)).map fun (bytes, used) => (bytes, 6 + used)
  else none

def storedFrames : Nat → Bytes → Option Bytes
  | 0, _ => none
  | fuel + 1, input =>
    match storedFrame input with
    | none => none
    | some (bytes, used) =>
      if input.length ≤ used then some bytes
      else (storedFrames fuel (input.drop used)).map (bytes ++ ·)

def putWord : Nat → Bytes
  | 0 => [0]
  | n + 1 => 1 :: putWord n

def getWords : Nat → Bytes → Option (List Nat)
  | _, [] => some []
  | n, b :: rest =>
    if b = 0 then (getWords 0 rest).map (n :: ·)
    else if b = 1 then getWords (n + 1) rest
    else none

def writeZigzag : Int → Nat
  | .ofNat n => 2 * n
  | .negSucc n => 2 * n + 1

def readZigzag (n : Nat) : Int := if n % 2 = 0 then .ofNat (n / 2) else .negSucc (n / 2)

def rowWords (row : LegacySqlRow) : List Nat :=
  writeZigzag row.rowId :: writeZigzag row.reportedByteSize :: row.originalBytes ::
    row.insertedAt.toList.map Char.toNat

def wordsRow : List Nat → Option LegacySqlRow
  | rowId :: reported :: original :: chars =>
    some ⟨readZigzag rowId, String.ofList (chars.map Char.ofNat), readZigzag reported, original⟩
  | _ => none

def optionWord : Option Nat → Nat
  | none => 0
  | some n => n + 1

def wordOption : Nat → Option Nat
  | 0 => none
  | n + 1 => some n

def outcomeWord : Option CaptureOutcome → Nat
  | none => 0
  | some .complete => 1
  | some .unavailable => 2
  | some .legacyUnknown => 3

def wordOutcome : Nat → Option CaptureOutcome
  | 1 => some .complete
  | 2 => some .unavailable
  | 3 => some .legacyUnknown
  | _ => none

def metadataWords (m : CapturedLogMetadata) : List Nat :=
  optionWord m.capturedAt :: m.captureOrder :: m.control.toNat :: outcomeWord m.outcome ::
    match m.legacySqlRow with
    | none => []
    | some row => rowWords row

def wordsMetadata : List Nat → Option CapturedLogMetadata
  | capturedAt :: order :: control :: outcome :: row =>
    some ⟨wordOption capturedAt, order, control == 1, wordOutcome outcome, wordsRow row⟩
  | _ => none

def frameWords (f : LogFrame) : List Nat :=
  [f.start, f.stop, f.compressedStart, f.compressedStop, optionWord f.capturedAt]

def wordsFrame : List Nat → Option LogFrame
  | [start, stop, compressedStart, compressedStop, capturedAt] =>
    some ⟨start, stop, compressedStart, compressedStop, wordOption capturedAt⟩
  | _ => none

def utf8 (text : String) : Bytes := text.toList.flatMap String.utf8EncodeChar

def messageJson : LogMsg → String
  | .stdout text => "\x7b\"Stdout\":\"" ++ text ++ "\"\x7d"
  | .stderr text => "\x7b\"Stderr\":\"" ++ text ++ "\"\x7d"
  | .jsonPatch patch => "\x7b\"JsonPatch\":" ++ patch ++ "\x7d"
  | .sessionId id => "\x7b\"SessionId\":\"" ++ id ++ "\"\x7d"
  | .messageId id => "\x7b\"MessageId\":\"" ++ id ++ "\"\x7d"
  | .ready => "\"Ready\""
  | .finished => "\"Finished\""

def storedCodec : Codec where
  compress _ bytes := storedHeader ++ storedBlocks bytes
  singleFrame := storedFrame
  decompress input := storedFrames (input.length + 1) input
  metadataToJson m := (metadataWords m).flatMap putWord
  metadataFromJson json := (getWords 0 json).bind wordsMetadata
  frameToJson f := (frameWords f).flatMap putWord
  frameFromJson json := (getWords 0 (json.takeWhile (· ≠ newline))).bind wordsFrame
  rowToJson row := (rowWords row).flatMap putWord
  messageToJson message := some (utf8 (messageJson message))
  sha256 := id

theorem storedCodec_singleFrame : storedCodec.singleFrame = storedFrame := rfl

theorem storedCodec_compress (level : Nat) (bytes : Bytes) :
    storedCodec.compress level bytes = storedHeader ++ storedBlocks bytes := rfl

theorem readStoredBlocks_storedBlocks (bytes tail : Bytes) :
    readStoredBlocks (storedBlocks bytes ++ tail) = some (bytes, (storedBlocks bytes).length) := by
  induction bytes with
  | nil => cases tail <;> simp [storedBlocks, readStoredBlocks]
  | cons b bytes ih => simp [storedBlocks, readStoredBlocks, ih]

theorem getWords_putWord (n k : Nat) (rest : Bytes) :
    getWords k (putWord n ++ rest) = (getWords 0 rest).map ((k + n) :: ·) := by
  induction n generalizing k with
  | zero => simp [putWord, getWords]
  | succ n ih =>
    have hk : k + 1 + n = k + (n + 1) := by omega
    simp [putWord, getWords, ih, hk]

theorem getWords_putWords (words : List Nat) :
    getWords 0 (words.flatMap putWord) = some words := by
  induction words with
  | nil => rfl
  | cons n words ih => rw [List.flatMap_cons, getWords_putWord, ih, Nat.zero_add, Option.map_some]

theorem readZigzag_writeZigzag (i : Int) : readZigzag (writeZigzag i) = i := by
  cases i with
  | ofNat n => simp [readZigzag, writeZigzag]
  | negSucc n =>
    have h : (2 * n + 1) / 2 = n := by omega
    simp [readZigzag, writeZigzag, Nat.add_mod, h]

theorem wordsRow_rowWords (row : LegacySqlRow) : wordsRow (rowWords row) = some row := by
  simp [wordsRow, rowWords, readZigzag_writeZigzag, Function.comp_def, Char.ofNat_toNat]

theorem wordsMetadata_metadataWords (m : CapturedLogMetadata) :
    wordsMetadata (metadataWords m) = some m := by
  obtain ⟨capturedAt, order, control, outcome, row⟩ := m
  have hrow : wordsRow (match row with | none => [] | some row => rowWords row) = row := by
    cases row with
    | none => rfl
    | some row => exact wordsRow_rowWords row
  have hat : wordOption (optionWord capturedAt) = capturedAt := by cases capturedAt <;> rfl
  have hcontrol : (control.toNat == 1) = control := by cases control <;> rfl
  have houtcome : wordOutcome (outcomeWord outcome) = outcome := by
    rcases outcome with _ | _ | _ | _ <;> rfl
  simp only [wordsMetadata, metadataWords, hat, hcontrol, houtcome, hrow]

theorem readStoredBlocks_ok (h : readStoredBlocks input = some (bytes, used)) :
    used = (storedBlocks bytes).length ∧ ∃ rest, input = storedBlocks bytes ++ rest := by
  fun_induction readStoredBlocks input generalizing bytes used with
  | case1 head middle high hlast =>
    obtain ⟨rfl, rfl⟩ := Prod.mk.inj (Option.some.inj h)
    exact ⟨rfl, [], hlast⟩
  | case2 => cases h
  | case3 head middle high b rest hlast =>
    obtain ⟨rfl, rfl⟩ := Prod.mk.inj (Option.some.inj h)
    simp only [List.cons.injEq] at hlast
    exact ⟨rfl, b :: rest, by simp [hlast, storedBlocks]⟩
  | case4 head middle high b rest _ hraw ih =>
    rw [Option.map_eq_some_iff] at h
    obtain ⟨⟨bytes', used'⟩, hr, heq⟩ := h
    obtain ⟨rfl, rfl⟩ := Prod.mk.inj heq
    obtain ⟨rfl, rest', rfl⟩ := ih hr
    simp only [List.cons.injEq] at hraw
    exact ⟨rfl, rest', by simp [hraw, storedBlocks]⟩
  | case5 => cases h
  | case6 => cases h

theorem storedFrame_stored (bytes tail : Bytes) :
    storedFrame (storedHeader ++ storedBlocks bytes ++ tail) =
      some (bytes, (storedHeader ++ storedBlocks bytes).length) := by
  have h4 : (storedHeader ++ storedBlocks bytes ++ tail).take 4 ≠
      toLeBytes 4 zstdSkippableFrameMagic := by
    rw [List.append_assoc, List.take_append_of_le_length (by decide)]
    decide
  have h6 : (storedHeader ++ storedBlocks bytes ++ tail).take 6 = storedHeader := by
    rw [List.append_assoc]
    exact List.take_left' rfl
  have hd : (storedHeader ++ storedBlocks bytes ++ tail).drop 6 = storedBlocks bytes ++ tail := by
    rw [List.append_assoc]
    exact List.drop_left' rfl
  rw [storedFrame, if_neg h4, if_pos h6, hd, readStoredBlocks_storedBlocks, List.length_append]
  rfl

theorem storedFrame_skippable (content tail : Bytes) (h : content.length < 2 ^ 32) :
    storedFrame (skippableFrame content ++ tail) =
      some ([], (skippableFrame content).length) := by
  have h4 : (skippableFrame content ++ tail).take 4 = toLeBytes 4 zstdSkippableFrameMagic := by
    rw [skippableFrame, List.append_assoc, List.append_assoc, List.take_left' (by simp)]
  have hsize : ((skippableFrame content ++ tail).drop 4).take 4 = toLeBytes 4 content.length := by
    rw [skippableFrame, List.append_assoc, List.append_assoc, List.drop_left' (by simp),
      List.take_left' (by simp)]
  rw [storedFrame, if_pos h4, hsize, fromLeBytes_toLeBytes _ _ (by simpa using h),
    List.length_append, skippableFrame_length]
  exact if_pos (by omega)

theorem storedFrame_ok (h : storedFrame input = some (bytes, used)) :
    (∃ content rest, content.length < 2 ^ 32 ∧ input = skippableFrame content ++ rest ∧
        bytes = [] ∧ used = (skippableFrame content).length) ∨
      ∃ rest, input = storedHeader ++ storedBlocks bytes ++ rest ∧
        used = (storedHeader ++ storedBlocks bytes).length := by
  unfold storedFrame at h
  split at h
  · rename_i h4
    simp only at h
    split at h
    · rename_i hle
      obtain ⟨rfl, rfl⟩ := Prod.mk.inj (Option.some.inj h)
      have hsize : fromLeBytes ((input.take 8).drop 4) = fromLeBytes ((input.drop 4).take 4) := by
        rw [List.drop_take]
      have hmagic : fromLeBytes (input.take 4) = zstdSkippableFrameMagic := by
        rw [h4]
        exact fromLeBytes_toLeBytes _ _ (by decide)
      have hlt := fromLeBytes_lt ((input.drop 4).take 4)
      have hlen : ((input.drop 4).take 4).length = 4 := by
        rw [List.length_take, List.length_drop]
        omega
      rw [hlen] at hlt
      generalize fromLeBytes ((input.drop 4).take 4) = size at hle hsize hlt ⊢
      have hcontent : ((input.drop 8).take size).length = size := by
        rw [List.length_take, List.length_drop]
        omega
      refine Or.inl ⟨(input.drop 8).take size, input.drop (8 + size), ?_,
        skippableFrame_of_header hmagic hsize hle, rfl, ?_⟩
      · rw [hcontent]
        exact hlt
      · rw [skippableFrame_length, hcontent]
    · cases h
  · split at h
    · rename_i h6
      rw [Option.map_eq_some_iff] at h
      obtain ⟨⟨bytes', used'⟩, hr, heq⟩ := h
      obtain ⟨rfl, rfl⟩ := Prod.mk.inj heq
      obtain ⟨rfl, rest, hrest⟩ := readStoredBlocks_ok hr
      refine Or.inr ⟨rest, ?_, by rw [List.length_append]; rfl⟩
      rw [← List.take_append_drop 6 input, h6, hrest, List.append_assoc]
    · cases h

theorem storedFrame_used (h : storedFrame input = some (bytes, used)) : 0 < used := by
  obtain ⟨content, rest, -, -, -, rfl⟩ | ⟨rest, -, rfl⟩ := storedFrame_ok h
  · rw [skippableFrame_length]
    omega
  · rw [List.length_append]
    exact Nat.add_pos_left (by decide) _

theorem storedFrames_fuel (h : input.length < n) (h' : input.length < m) :
    storedFrames n input = storedFrames m input := by
  induction n generalizing m input with
  | zero => omega
  | succ n ih =>
    obtain _ | m := m
    · omega
    simp only [storedFrames]
    cases hf : storedFrame input with
    | none => rfl
    | some r =>
      obtain ⟨bytes, used⟩ := r
      have hused := storedFrame_used hf
      simp only
      split
      · rfl
      · have hlen : (input.drop used).length < input.length := by
          rw [List.length_drop]
          omega
        rw [ih (by omega) (m := m) (by omega)]

theorem newline_notMem_putWord (n : Nat) : newline ∉ putWord n := by
  induction n with
  | zero => decide
  | succ n ih =>
    rw [putWord, List.mem_cons, not_or]
    exact ⟨by decide, ih⟩

theorem newline_notMem_putWords (words : List Nat) : newline ∉ words.flatMap putWord := by
  intro h
  obtain ⟨n, -, hn⟩ := List.mem_flatMap.mp h
  exact newline_notMem_putWord n hn

theorem takeWhile_line (l : Bytes) (h : newline ∉ l) (rest : Bytes) :
    (l ++ newline :: rest).takeWhile (· ≠ newline) = l := by
  induction l with
  | nil => simp
  | cons b l ih =>
    rw [List.mem_cons, not_or] at h
    rw [List.cons_append, List.takeWhile_cons_of_pos (by simpa using Ne.symm h.1), ih h.2]

theorem storedCodec_roundTrips : storedCodec.RoundTrips where
  singleFrame_compress level bytes tail := by
    rw [storedCodec_compress, storedCodec_singleFrame]
    exact storedFrame_stored bytes tail
  singleFrame_skippable := by
    rw [storedCodec_singleFrame]
    exact storedFrame_skippable
  decompress_frames input bytes used h := by
    have hused := storedFrame_used h
    simp only [storedCodec] at h ⊢
    simp only [storedFrames, h]
    split
    · rfl
    · have hlen : (input.drop used).length < input.length := by
        rw [List.length_drop]
        omega
      rw [storedFrames_fuel hlen (Nat.lt_succ_self _)]
      rfl
  metadata_json m := by
    simp only [storedCodec, getWords_putWords, Option.bind_some]
    exact wordsMetadata_metadataWords m
  frame_json f := by
    have hline := takeWhile_line _ (newline_notMem_putWords (frameWords f)) []
    simp only [storedCodec, hline, getWords_putWords, Option.bind_some]
    obtain ⟨start, stop, compressedStart, compressedStop, capturedAt⟩ := f
    cases capturedAt <;> rfl
  frame_line f := newline_notMem_putWords (frameWords f)

theorem storedCodec_selfDelimiting : storedCodec.SelfDelimiting := by
  intro input bytes used h tail
  rw [storedCodec_singleFrame] at h ⊢
  obtain ⟨content, rest, hlen, rfl, rfl, rfl⟩ | ⟨rest, rfl, rfl⟩ := storedFrame_ok h
  · rw [List.take_left]
    exact storedFrame_skippable content tail hlen
  · rw [List.take_left]
    exact storedFrame_stored bytes tail

end Cdesktop.ExecutionLog
