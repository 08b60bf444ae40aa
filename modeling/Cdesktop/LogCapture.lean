import Cdesktop.LogSession

namespace Cdesktop.ExecutionLog
open RecordStream
set_option autoImplicit true

/-- The producer's stream: what its polls answer one after the other, `none` being its end. -/
abbrev LogStream := Nat → Option (Except LogError LogMsg)

inductive CapturePhase where
  | receiving
  | appending (message : LogMsg) (line : Bytes)
  | pushing (message : LogMsg)
  | sealing
  | failing (e : LogError)
  | notifying
  | returned (outcome : CaptureOutcome)
deriving DecidableEq

/-- `capture_raw_logs` between two of its awaits. -/
structure Capture where
  recording : Recording
  store : List LogMsg
  taken : Nat
  phase : CapturePhase
  failures : Nat

/-- What the task meets when it goes on: the drain token, whether the stream has an answer, and how
the system serves an append and the marker in its place. -/
structure Turn where
  cancelled : Bool
  ready : Bool
  io : Storage
  marker : Storage

def messageLine (c : Codec) (message : LogMsg) : Option Bytes :=
  (c.messageToJson message).map (· ++ [newline])

def Capture.start (recording : Recording) : Capture :=
  { recording
    store := []
    taken := 0
    phase := .receiving
    failures := 0 }

/-- The biased `select!`: the token first, then the stream. -/
def Capture.receive (c : Codec) (stream : LogStream) (turn : Turn) (s : Capture) : Capture :=
  if turn.cancelled then { s with phase := .failing .drainExpired }
  else if turn.ready = false then s
  else
    match stream s.taken with
    | none => { s with phase := .sealing }
    | some (.error e) => { s with taken := s.taken + 1, phase := .failing e }
    | some (.ok message) =>
      if message = .finished then { s with taken := s.taken + 1, phase := .sealing }
      else
        match messageLine c message with
        | none => { s with taken := s.taken + 1, phase := .failing .unserializable }
        | some line => { s with taken := s.taken + 1, phase := .appending message line }

def Capture.step (c : Codec) (stream : LogStream) (s : Capture) (turn : Turn) : Capture :=
  match s.phase with
  | .receiving => s.receive c stream turn
  | .appending message line =>
    match s.recording.appendJsonlLine c line turn.io turn.marker with
    | (.ok .written, recording) => { s with recording, phase := .pushing message }
    | (.ok _, recording) => { s with recording, phase := .failing .recordingUnavailable }
    | (.error e, recording) => { s with recording, phase := .failing e }
  | .pushing message => { s with store := s.store ++ [message], phase := .receiving }
  | .sealing =>
    match s.recording.finish c .complete turn.io with
    | (.ok (), recording) => { s with recording, phase := .returned .complete }
    | (.error e, recording) => { s with recording, phase := .failing e }
  | .failing _ =>
    { s with
      recording := (s.recording.finish c .unavailable turn.io).2
      phase := .notifying }
  | .notifying =>
    { s with
      failures := s.failures + 1
      phase := .returned .unavailable }
  | .returned _ => s

def Capture.run (c : Codec) (stream : LogStream) (s : Capture) (turns : List Turn) : Capture :=
  turns.foldl (Capture.step c stream) s

abbrev Piece := Bytes × CapturedLogMetadata

def encode (c : Codec) (pieces : List Piece) : Bytes :=
  pieces.flatMap fun p => capturedRecord c p.1 p.2

def pieceBytes (pieces : List Piece) : Bytes := pieces.flatMap Prod.fst

@[simp] theorem encode_nil (c : Codec) : encode c [] = [] := rfl

@[simp] theorem encode_cons (c : Codec) (p : Piece) (pieces : List Piece) :
    encode c (p :: pieces) = capturedRecord c p.1 p.2 ++ encode c pieces := rfl

@[simp] theorem encode_append (c : Codec) (pieces pieces' : List Piece) :
    encode c (pieces ++ pieces') = encode c pieces ++ encode c pieces' := by
  simp [encode]

@[simp] theorem pieceBytes_nil : pieceBytes [] = [] := rfl

@[simp] theorem pieceBytes_cons (p : Piece) (pieces : List Piece) :
    pieceBytes (p :: pieces) = p.1 ++ pieceBytes pieces := rfl

@[simp] theorem pieceBytes_append (pieces pieces' : List Piece) :
    pieceBytes (pieces ++ pieces') = pieceBytes pieces ++ pieceBytes pieces' := by
  simp [pieceBytes]

theorem MetadataFits.encoded_lt (h : MetadataFits c m) :
    (c.compress 1 (c.metadataToJson m)).length < 2 ^ 32 :=
  Nat.lt_of_le_of_lt h.2 (by decide)

theorem decompress_record (hc : c.RoundTrips) (hm : MetadataFits c m) (rest : Bytes) :
    c.decompress (capturedRecord c input m ++ rest) =
      if rest = [] then some input else (c.decompress rest).map (input ++ ·) := by
  have hskip := hc.singleFrame_skippable (c.compress 1 (c.metadataToJson m)) rest hm.encoded_lt
  have hmeta := hc.decompress_frames _ _ _ hskip
  rw [List.drop_left, List.length_append] at hmeta
  rw [capturedRecord, List.append_assoc,
    hc.decompress_frames _ _ _ (hc.singleFrame_compress 3 input _), List.drop_left, hmeta]
  rw [if_neg (by simp only [List.length_append, skippableFrame_length]; omega)]
  cases rest with
  | nil => simp
  | cons b rest =>
    rw [if_neg (by simp), if_neg (by simp)]
    cases c.decompress (b :: rest) <;> simp

theorem decompress_encode (hc : c.RoundTrips) (hfits : ∀ p ∈ pieces, MetadataFits c p.2)
    (hne : pieces ≠ []) : c.decompress (encode c pieces) = some (pieceBytes pieces) := by
  induction pieces with
  | nil => exact absurd rfl hne
  | cons p pieces ih =>
    rw [encode_cons, decompress_record hc (hfits p List.mem_cons_self)]
    cases pieces with
    | nil => simp
    | cons q pieces =>
      rw [if_neg (by simp [capturedRecord, skippableFrame, toLeBytes])]
      rw [ih (fun p hp => hfits p (List.mem_cons_of_mem _ hp)) (List.cons_ne_nil _ _)]
      rfl

theorem readOwnerFrame_record (hc : c.RoundTrips) (hm : MetadataFits c m)
    (h : readOwnerFrame c ⟨p, capturedRecord c input m ++ rest⟩ = .ok (f, t)) :
    f.bytes = input ∧ f.metadata = m ∧ t.rest = rest := by
  obtain ⟨used, size, h⟩ := readOwnerFrame_ok.mp h
  have hdecoded := h.decoded
  rw [capturedRecord, List.append_assoc, hc.singleFrame_compress] at hdecoded
  obtain ⟨hbytes, hused⟩ := Prod.mk.inj (Option.some.inj hdecoded)
  have hsized := h.sized
  have hnext := h.next
  obtain ⟨json, hjson, -, hmeta⟩ := h.metadata
  have hlt : (c.compress 1 (c.metadataToJson m)).length < 256 ^ 4 :=
    Nat.lt_of_lt_of_eq hm.encoded_lt (by decide)
  have hdrop : (capturedRecord c input m ++ rest).drop used =
      skippableFrame (c.compress 1 (c.metadataToJson m)) ++ rest := by
    rw [capturedRecord, List.append_assoc, ← hused, List.drop_left]
  simp only [hdrop] at hsized
  rw [skippableFrame, List.append_assoc, List.take_left' (by simp),
    List.drop_left' (toLeBytes_length _ _), fromLeBytes_toLeBytes _ _ hlt] at hsized
  simp only [← List.drop_drop, hdrop] at hjson
  rw [skippableFrame, List.append_assoc, List.drop_left' (by simp), ← hsized, List.take_left,
    hc.decompress_compress] at hjson
  rw [← Option.some.inj hjson, hc.metadata_json] at hmeta
  refine ⟨hbytes.symm, (Option.some.inj hmeta).symm, ?_⟩
  rw [hnext]
  simp only [Cursor.advance, ← List.drop_drop, hdrop]
  rw [List.drop_drop, ← hsized, List.drop_left' (skippableFrame_length _)]

theorem trace_encode (hc : c.RoundTrips) (hfits : ∀ p ∈ pieces, MetadataFits c p.2)
    (ht : OwnerTrace c s frames) (hs : s.rest = encode c pieces) :
    frames.map (fun f => (f.bytes, f.metadata)) = pieces := by
  induction pieces generalizing s frames with
  | nil =>
    cases ht with
    | done => rfl
    | item hne => exact absurd hs hne
  | cons q pieces ih =>
    cases ht with
    | done => simp [capturedRecord, skippableFrame, toLeBytes] at hs
    | @item _ f t frames _ hread ht =>
      obtain ⟨p, rest⟩ := s
      obtain rfl : rest = encode c (q :: pieces) := hs
      obtain ⟨hbytes, hmeta, hrest⟩ :=
        readOwnerFrame_record hc (hfits q List.mem_cons_self) hread
      rw [List.map_cons, ih (fun p hp => hfits p (List.mem_cons_of_mem _ hp)) ht hrest, hbytes,
        hmeta]

structure Took (c : Codec) (r : Recording) (text : Bytes) (pieces : List Piece)
    (input torn : Bytes) (r' : Recording) : Prop where
  owner : r'.owner = r.owner ++ encode c pieces ++ torn
  broken : (torn = [] ∧ input = []) ∨
    (r'.poisoned = true ∧ ∃ m, torn <+: capturedRecord c input m)
  fits : ∀ p ∈ pieces, MetadataFits c p.2
  unsealed : ∀ p ∈ pieces, p.2.outcome = none
  part : pieceBytes pieces ++ input <+: text

theorem Took.nothing (howner : r'.owner = r.owner) : Took c r text [] [] [] r' where
  owner := by rw [howner, encode_nil, List.append_nil, List.append_nil]
  broken := Or.inl ⟨rfl, rfl⟩
  fits := fun p hp => by cases hp
  unsealed := fun p hp => by cases hp
  part := List.nil_prefix

theorem Took.tear (m : CapturedLogMetadata) (hinput : input <+: text) (landed : Nat) :
    Took c r text [] input ((capturedRecord c input m).take landed)
      (r.tear ((capturedRecord c input m).take landed)) where
  owner := by rw [encode_nil, List.append_nil]; rfl
  broken := Or.inr ⟨rfl, m, List.take_prefix _ _⟩
  fits := fun p hp => by cases hp
  unsealed := fun p hp => by cases hp
  part := hinput

theorem Took.cons (h : Took c r₁ text pieces input torn r')
    (howner : r₁.owner = r.owner ++ capturedRecord c p.1 p.2) (hfits : MetadataFits c p.2)
    (hopen : p.2.outcome = none) : Took c r (p.1 ++ text) (p :: pieces) input torn r' where
  owner := by rw [h.owner, howner, encode_cons, List.append_assoc r.owner]
  broken := h.broken
  fits := List.forall_mem_cons.mpr ⟨hfits, h.fits⟩
  unsealed := List.forall_mem_cons.mpr ⟨hopen, h.unsealed⟩
  part := by
    rw [pieceBytes_cons, List.append_assoc]
    exact (List.prefix_append_right_inj _).mpr h.part

theorem Recording.appendIndex_owner (io : SegmentIo) (line : Bytes) (r : Recording) :
    (r.appendIndex io line).owner = r.owner := by
  obtain ⟨hasIndex, index, h⟩ := r.appendIndex_rest io line
  rw [h]

theorem Recording.writeSegments_took {control : Bool}
    (h : Recording.writeSegments c capturedAt control row ios inputs r = (answer, r')) :
    ∃ pieces input torn, Took c r inputs.flatten pieces input torn r' ∧
      (answer = .ok () → torn = [] ∧ pieceBytes pieces = inputs.flatten) := by
  induction inputs generalizing r ios with
  | nil =>
    rw [writeSegments] at h
    cases h
    exact ⟨[], [], [], Took.nothing rfl, fun _ => ⟨rfl, rfl⟩⟩
  | cons input inputs ih =>
    rw [writeSegments] at h
    rw [List.flatten_cons]
    generalize hseg : r.writeSegment c (ios.headD .sound) input capturedAt control none row = x
      at h
    obtain ⟨result, r₁⟩ := x
    obtain ⟨⟨e, rfl⟩, rfl, -⟩ | ⟨rfl, landed, -, rfl⟩ | ⟨rfl, -, hfits, rfl⟩ :=
      writeSegment_cases rfl hseg
    · cases h
      exact ⟨[], [], [], Took.nothing rfl, fun hok => by cases hok⟩
    · cases h
      exact ⟨[], input, _, Took.tear _ (List.prefix_append _ _) landed, fun hok => by cases hok⟩
    · obtain ⟨pieces, input', torn, htook, hok⟩ := ih h
      have hcons := Took.cons (p := (input, _)) htook (appendIndex_owner _ _ _) hfits rfl
      refine ⟨_, input', torn, hcons, ?_⟩
      · intro hanswer
        rw [pieceBytes_cons, (hok hanswer).2]
        exact ⟨(hok hanswer).1, rfl⟩

theorem Recording.writeFrame_took {control : Bool}
    (h : Recording.writeFrame c io bytes capturedAt control r = (answer, r')) :
    ∃ pieces input torn, Took c r bytes pieces input torn r' ∧
      (answer = .ok () → torn = [] ∧ pieceBytes pieces = bytes) := by
  have := writeSegments_took h
  rwa [frameChunks_flatten] at this

@[simp] theorem Served.ok_andThen (a : α) (r : Recording) (f : α → Recording → Served β) :
    Served.andThen (.ok a, r) f = f a r := rfl

theorem Recording.appendControlLine_took
    (h : Recording.appendControlLine c line io r = (answer, r')) :
    ∃ pieces input torn, Took c r line pieces input torn r' := by
  have hnothing : ∃ pieces input torn, Took c r line pieces input torn r :=
    ⟨[], [], [], Took.nothing rfl⟩
  unfold appendControlLine at h
  obtain ⟨hw, -⟩ | ⟨hw, -⟩ := r.ensureWritable_cases
  · rw [hw, Served.ok_andThen] at h
    split at h
    · cases h
      exact hnothing
    obtain hspace | ⟨admitted, hspace⟩ := r.hasControlSpace_cases io line.length
    · rw [hspace] at h
      cases h
      exact hnothing
    rw [hspace, Served.ok_andThen] at h
    cases admitted with
    | false =>
      cases h
      exact hnothing
    | true =>
      generalize hwrite : r.writeFrame c io line (some io.now) true = x at h
      obtain ⟨result, r₁⟩ := x
      obtain ⟨pieces, input, torn, htook, -⟩ := writeFrame_took hwrite
      cases result with
      | ok _ =>
        cases h
        exact ⟨pieces, input, torn, htook⟩
      | error e =>
        cases h
        exact ⟨pieces, input, torn, htook⟩
  · rw [hw] at h
    cases h
    exact hnothing

theorem Recording.publishUnavailableMarker_took
    (h : Recording.publishUnavailableMarker c io r = (answer, r')) :
    r'.owner = r.owner ∨ ∃ text pieces input torn, markerLine c = some text ∧
      Took c r text pieces input torn r' := by
  unfold publishUnavailableMarker at h
  split at h
  · cases h
    exact Or.inl rfl
  simp only at h
  split at h
  · cases h
    exact Or.inl rfl
  · rename_i text htext
    generalize hcontrol : appendControlLine c text io { r with markerWritten := true } = x at h
    obtain ⟨result, r₁⟩ := x
    obtain ⟨pieces, input, torn, htook⟩ := appendControlLine_took hcontrol
    have hr : r' = r₁ := by
      cases result with
      | ok _ =>
        cases h
        rfl
      | error e =>
        cases h
        rfl
    subst hr
    exact Or.inr ⟨text, pieces, input, torn, htext, { htook with }⟩

/-- A producer's line or the marker is what the owner takes of, the line whole when the call says
it is written. -/
theorem Recording.appendJsonlLine_took
    (h : Recording.appendJsonlLine c line io marker r = (answer, r')) :
    ∃ text pieces input torn, Took c r text pieces input torn r' ∧
      (text = line ∨ markerLine c = some text) ∧
      (answer = .ok .written → torn = [] ∧ pieceBytes pieces = line) := by
  have hnothing : ∀ r', r'.owner = r.owner → answer ≠ .ok .written →
      ∃ text pieces input torn, Took c r text pieces input torn r' ∧
        (text = line ∨ markerLine c = some text) ∧
        (answer = .ok .written → torn = [] ∧ pieceBytes pieces = line) :=
    fun r' howner hanswer =>
      ⟨line, [], [], [], Took.nothing howner, Or.inl rfl, fun hok => absurd hok hanswer⟩
  unfold appendJsonlLine at h
  obtain ⟨hw, -⟩ | ⟨hw, -⟩ := r.ensureWritable_cases
  · rw [hw, Served.ok_andThen] at h
    obtain hspace | ⟨admitted, hspace⟩ := r.hasDiskReserve_cases io line.length
    · rw [hspace] at h
      cases h
      exact hnothing _ rfl (by simp)
    rw [hspace, Served.ok_andThen] at h
    cases admitted with
    | true =>
      generalize hwrite : r.writeFrame c io line (some io.now) false = x at h
      obtain ⟨result, r₁⟩ := x
      obtain ⟨pieces, input, torn, htook, hok⟩ := writeFrame_took hwrite
      cases result with
      | ok _ =>
        cases h
        exact ⟨line, pieces, input, torn, htook, Or.inl rfl, fun _ => hok rfl⟩
      | error e =>
        cases h
        exact ⟨line, pieces, input, torn, htook, Or.inl rfl, fun hanswer => by cases hanswer⟩
    | false =>
      simp only [Bool.false_eq_true, if_false] at h
      generalize hmarker : r.publishUnavailableMarker c marker = x at h
      obtain ⟨result, r₁⟩ := x
      have hr : answer ≠ .ok .written ∧ r' = r₁ := by
        cases result with
        | ok _ =>
          cases h
          exact ⟨by simp, rfl⟩
        | error e =>
          cases h
          exact ⟨by simp, rfl⟩
      obtain ⟨hanswer, rfl⟩ := hr
      obtain howner | ⟨text, pieces, input, torn, htext, htook⟩ :=
        publishUnavailableMarker_took hmarker
      · exact hnothing _ howner hanswer
      · exact ⟨text, pieces, input, torn, htook, Or.inr htext, fun hok => absurd hok hanswer⟩
  · rw [hw] at h
    cases h
    exact hnothing _ rfl (by simp)

theorem Recording.finish_took (h : Recording.finish c outcome io r = (answer, r')) :
    (answer = .ok () ∧ ∃ m, m.outcome = some outcome ∧ MetadataFits c m ∧
      r'.owner = r.owner ++ capturedRecord c [] m ∧ r'.sealed = true) ∨
    (answer ≠ .ok () ∧ ∃ torn, Took c r [] [] [] torn r') := by
  have hnothing : ∃ torn, Took c r [] [] [] torn r := ⟨[], Took.nothing rfl⟩
  unfold finish at h
  obtain ⟨hw, -⟩ | ⟨hw, -⟩ := r.ensureWritable_cases
  · rw [hw, Served.ok_andThen] at h
    obtain hspace | ⟨admitted, hspace⟩ := r.hasControlSpace_cases io 0
    · rw [hspace] at h
      cases h
      exact Or.inr ⟨by simp, hnothing⟩
    rw [hspace, Served.ok_andThen] at h
    cases admitted with
    | false =>
      cases h
      exact Or.inr ⟨by simp, hnothing⟩
    | true =>
      simp only [if_true] at h
      generalize hseg : r.writeSegment c (io.segments.headD .sound) [] (some io.now) true
        (some outcome) none = x at h
      obtain ⟨result, r₁⟩ := x
      obtain ⟨⟨e, rfl⟩, rfl, -⟩ | ⟨rfl, landed, -, rfl⟩ | ⟨rfl, -, hfits, rfl⟩ :=
        writeSegment_cases rfl hseg
      · cases h
        exact Or.inr ⟨by simp, hnothing⟩
      · cases h
        exact Or.inr ⟨by simp, _, Took.tear _ (List.prefix_refl _) landed⟩
      · cases h
        exact Or.inl ⟨rfl, _, rfl, hfits, appendIndex_owner _ _ _, rfl⟩
  · rw [hw] at h
    cases h
    exact Or.inr ⟨by simp, hnothing⟩

theorem Recording.finish_poisoned {r : Recording} (h : r.poisoned = true) (c : Codec)
    (outcome : CaptureOutcome) (io : Storage) :
    r.finish c outcome io = (.error .requiresRecovery, r) := by
  unfold finish ensureWritable
  rw [h]
  rfl

def lines (c : Codec) (store : List LogMsg) : Bytes :=
  store.flatMap fun message => (messageLine c message).getD []

structure Awaited (c : Codec) (stream : LogStream) (store : List LogMsg) (message : LogMsg)
    (line : Bytes) : Prop where
  next : stream store.length = some (.ok message)
  unfinished : message ≠ .finished
  serialized : messageLine c message = some line

/-- Behind the messages published the stream has ended or the producer has finished. -/
def Ended (stream : LogStream) (store : List LogMsg) : Prop :=
  stream store.length = none ∨ stream store.length = some (.ok .finished)

/-- The owner took the lines of the messages published and nothing else. -/
structure Whole (c : Codec) (store : List LogMsg) (pieces : List Piece) (torn : Bytes) :
    Prop where
  bytes : pieceBytes pieces = lines c store
  untorn : torn = []
  unsealed : ∀ p ∈ pieces, p.2.outcome = none

/-- The records hold the lines of the messages published and behind them at most a part of the next
line or of the marker, which may go on in a record that is torn. -/
def LeftBehind (c : Codec) (stream : LogStream) (s : Capture) (pieces : List Piece)
    (torn : Bytes) : Prop :=
  ∃ text input, pieceBytes pieces = lines c s.store ++ text ∧
    (text ++ input = [] ∨
      (∃ message line, Awaited c stream s.store message line ∧ text ++ input <+: line) ∨
      ∃ line, markerLine c = some line ∧ text ++ input <+: line) ∧
    ((torn = [] ∧ input = []) ∨
      (s.recording.poisoned = true ∧ ∃ m, torn <+: capturedRecord c input m))

def Capture.Extent (c : Codec) (stream : LogStream) (s : Capture) (pieces : List Piece)
    (torn : Bytes) : Prop :=
  match s.phase with
  | .receiving => s.taken = s.store.length ∧ Whole c s.store pieces torn
  | .appending message line => s.taken = s.store.length + 1 ∧
      Awaited c stream s.store message line ∧ Whole c s.store pieces torn
  | .pushing message => s.taken = s.store.length + 1 ∧
      ∃ line, Awaited c stream s.store message line ∧ Whole c (s.store ++ [message]) pieces torn
  | .sealing => Ended stream s.store ∧ Whole c s.store pieces torn
  | .returned .complete => Ended stream s.store ∧ ∃ pieces' m, pieces = pieces' ++ [([], m)] ∧
      m.outcome = some .complete ∧ Whole c s.store pieces' torn
  | .failing _ | .notifying | .returned .unavailable => LeftBehind c stream s pieces torn
  | .returned .legacyUnknown => False

/-- Every message published is the producer's, in its place, and the owner extends what it held by
records. -/
structure Capture.Holds (c : Codec) (stream : LogStream) (r₀ : Recording) (s : Capture)
    (pieces : List Piece) (torn : Bytes) : Prop where
  owner : s.recording.owner = r₀.owner ++ encode c pieces ++ torn
  fits : ∀ p ∈ pieces, MetadataFits c p.2
  published : ∀ i message, s.store[i]? = some message →
    stream i = some (.ok message) ∧ message ≠ .finished ∧ (messageLine c message).isSome
  failures : s.failures = if s.phase = .returned .unavailable then 1 else 0
  extent : s.Extent c stream pieces torn

theorem Capture.Holds.unreported (h : Capture.Holds c stream r₀ s pieces torn)
    (hphase : s.phase ≠ .returned .unavailable) : s.failures = 0 := by
  rw [h.failures, if_neg hphase]

@[simp] theorem lines_nil (c : Codec) : lines c [] = [] := rfl

theorem lines_snoc (h : messageLine c message = some line) (store : List LogMsg) :
    lines c (store ++ [message]) = lines c store ++ line := by
  simp [lines, h]

theorem Whole.leftBehind (h : Whole c s.store pieces torn) :
    LeftBehind c stream s pieces torn :=
  ⟨[], [], by rw [h.bytes, List.append_nil], Or.inl rfl, Or.inl ⟨h.untorn, rfl⟩⟩

theorem Capture.start_holds (c : Codec) (stream : LogStream) (r₀ : Recording) :
    (Capture.start r₀).Holds c stream r₀ [] [] where
  owner := by simp [start]
  fits := fun p hp => by cases hp
  published := fun i message h => by simp [start] at h
  failures := rfl
  extent := ⟨rfl, rfl, rfl, fun p hp => by cases hp⟩

theorem Capture.Holds.receive (h : Capture.Holds c stream r₀ s pieces torn)
    (hphase : s.phase = .receiving) (turn : Turn) :
    (s.receive c stream turn).Holds c stream r₀ pieces torn := by
  have hextent := h.extent
  have hfailures := h.unreported (by simp [hphase])
  rw [Extent, hphase] at hextent
  obtain ⟨htaken, hwhole⟩ := hextent
  unfold Capture.receive
  split
  · exact { h with
      failures := hfailures
      extent := hwhole.leftBehind }
  split
  · exact h
  rw [htaken]
  split
  · rename_i hnext
    exact { h with
      failures := hfailures
      extent := ⟨Or.inl hnext, hwhole⟩ }
  · exact { h with
      failures := hfailures
      extent := hwhole.leftBehind }
  · rename_i message hnext
    split
    · rename_i hfinished
      subst hfinished
      exact { h with
        failures := hfailures
        extent := ⟨Or.inr hnext, hwhole⟩ }
    rename_i hfinished
    split
    · exact { h with
        failures := hfailures
        extent := hwhole.leftBehind }
    · rename_i line hline
      exact { h with
        failures := hfailures
        extent := ⟨rfl, ⟨hnext, hfinished, hline⟩, hwhole⟩ }

theorem Took.owner_append (h : Took c r text pieces' input torn' r')
    (howner : r.owner = base ++ encode c pieces) :
    r'.owner = base ++ encode c (pieces ++ pieces') ++ torn' := by
  rw [h.owner, howner, encode_append, List.append_assoc base]

theorem Took.leftBehind (h : Took c r text pieces' input torn' r')
    (hwhole : Whole c s.store pieces torn) (hs : s.recording = r')
    (htext : (∃ message line, Awaited c stream s.store message line ∧ text = line) ∨
      markerLine c = some text) : LeftBehind c stream s (pieces ++ pieces') torn' := by
  refine ⟨pieceBytes pieces', input, ?_, Or.inr ?_, ?_⟩
  · rw [pieceBytes_append, hwhole.bytes]
  · obtain ⟨message, line, hline, rfl⟩ | hmarker := htext
    · exact Or.inl ⟨message, text, hline, h.part⟩
    · exact Or.inr ⟨text, hmarker, h.part⟩
  · rw [hs]
    exact h.broken

section
variable (h : Capture.Holds c stream r₀ s pieces torn)
include h

theorem Capture.Holds.append (hphase : s.phase = .appending message line) (turn : Turn) :
    ∃ pieces torn, (s.step c stream turn).Holds c stream r₀ pieces torn := by
  have hextent := h.extent
  have hfailures := h.unreported (by simp [hphase])
  rw [Extent, hphase] at hextent
  obtain ⟨htaken, hawaited, hwhole⟩ := hextent
  have howner := h.owner
  rw [hwhole.untorn, List.append_nil] at howner
  rw [step, hphase]
  simp only
  generalize happend : s.recording.appendJsonlLine c line turn.io turn.marker = x
  obtain ⟨answer, r'⟩ := x
  obtain ⟨text, pieces', input, torn', htook, htext, hok⟩ :=
    Recording.appendJsonlLine_took happend
  have howner' := htook.owner_append howner
  have hfits := List.forall_mem_append.mpr ⟨h.fits, htook.fits⟩
  have hfail : ∀ e, ({ s with recording := r', phase := .failing e } : Capture).Holds c stream r₀
      (pieces ++ pieces') torn' := by
    intro e
    refine ⟨howner', hfits, h.published, hfailures, ?_⟩
    apply htook.leftBehind (s := { s with recording := r', phase := .failing e }) hwhole rfl
    exact htext.imp_left fun ht => ⟨message, line, hawaited, ht⟩
  refine ⟨pieces ++ pieces', torn', ?_⟩
  split
  · rename_i heq
    cases heq
    obtain ⟨rfl, hbytes⟩ := hok rfl
    refine ⟨howner', hfits, h.published, hfailures, htaken, line, hawaited, ?_, rfl, ?_⟩
    · rw [pieceBytes_append, hwhole.bytes, hbytes, lines_snoc hawaited.serialized]
    · exact List.forall_mem_append.mpr ⟨hwhole.unsealed, htook.unsealed⟩
  · rename_i heq
    cases heq
    exact hfail _
  · rename_i heq
    cases heq
    exact hfail _

theorem Capture.Holds.push (hphase : s.phase = .pushing message) (turn : Turn) :
    (s.step c stream turn).Holds c stream r₀ pieces torn := by
  have hextent := h.extent
  have hfailures := h.unreported (by simp [hphase])
  rw [Extent, hphase] at hextent
  obtain ⟨htaken, line, hawaited, hwhole⟩ := hextent
  rw [step, hphase]
  refine ⟨h.owner, h.fits, ?_, hfailures, ?_, hwhole⟩
  · intro i m hm
    simp only [List.getElem?_append, List.getElem?_singleton] at hm
    split at hm
    · exact h.published i m hm
    · split at hm
      · cases hm
        have hi : i = s.store.length := by omega
        rw [hi]
        exact ⟨hawaited.next, hawaited.unfinished, by rw [hawaited.serialized]; rfl⟩
      · cases hm
  · rw [htaken, List.length_append]
    rfl

theorem Capture.Holds.seal (hphase : s.phase = .sealing) (turn : Turn) :
    ∃ pieces torn, (s.step c stream turn).Holds c stream r₀ pieces torn := by
  have hextent := h.extent
  have hfailures := h.unreported (by simp [hphase])
  rw [Extent, hphase] at hextent
  obtain ⟨hended, hwhole⟩ := hextent
  have howner := h.owner
  rw [hwhole.untorn, List.append_nil] at howner
  rw [step, hphase]
  simp only
  generalize hfinish : s.recording.finish c .complete turn.io = x
  obtain ⟨answer, r'⟩ := x
  obtain ⟨rfl, m, hm, hfits, howner', -⟩ | ⟨hanswer, torn', htook⟩ :=
    Recording.finish_took hfinish
  · refine ⟨pieces ++ [([], m)], [], ?_, ?_, h.published, hfailures, hended, pieces, m, rfl, hm,
      hwhole.bytes, rfl, hwhole.unsealed⟩
    · simp [howner', howner]
    · exact List.forall_mem_append.mpr ⟨h.fits, List.forall_mem_singleton.mpr hfits⟩
  · have howner' := htook.owner_append howner
    rw [List.append_nil] at howner'
    cases answer with
    | ok _ => exact absurd rfl hanswer
    | error e =>
      refine ⟨pieces, torn', howner', h.fits, h.published, hfailures, [], [], ?_, Or.inl rfl,
        htook.broken⟩
      simp [hwhole.bytes]

theorem Capture.Holds.fail (hphase : s.phase = .failing e) (turn : Turn) :
    ∃ pieces torn, (s.step c stream turn).Holds c stream r₀ pieces torn := by
  have hextent := h.extent
  have hfailures := h.unreported (by simp [hphase])
  rw [Extent, hphase] at hextent
  obtain ⟨text, input, hbytes, htext, hbroken⟩ := hextent
  have hstep : s.step c stream turn =
      { s with
        recording := (s.recording.finish c .unavailable turn.io).2
        phase := .notifying } := by
    rw [Capture.step, hphase]
  rw [hstep]
  obtain ⟨rfl, rfl⟩ | ⟨hpoisoned, hm⟩ := hbroken
  · generalize hfinish : s.recording.finish c .unavailable turn.io = x
    obtain ⟨answer, r'⟩ := x
    have howner := h.owner
    rw [List.append_nil] at howner
    obtain ⟨-, m, -, hfits, howner', -⟩ | ⟨-, torn', htook⟩ := Recording.finish_took hfinish
    · refine ⟨pieces ++ [([], m)], [], ?_, ?_, h.published, hfailures, text, [], ?_, htext,
        Or.inl ⟨rfl, rfl⟩⟩
      · simp [howner', howner]
      · exact List.forall_mem_append.mpr ⟨h.fits, List.forall_mem_singleton.mpr hfits⟩
      · simp [hbytes]
    · have howner' := htook.owner_append howner
      rw [List.append_nil] at howner'
      refine ⟨pieces, torn', howner', h.fits, h.published, hfailures, text, [], ?_, htext,
        htook.broken⟩
      simp [hbytes]
  · rw [Recording.finish_poisoned hpoisoned]
    exact ⟨pieces, torn, h.owner, h.fits, h.published, hfailures, text, input, hbytes, htext,
      Or.inr ⟨hpoisoned, hm⟩⟩

theorem Capture.Holds.step (turn : Turn) :
    ∃ pieces torn, (s.step c stream turn).Holds c stream r₀ pieces torn := by
  cases hphase : s.phase with
  | receiving =>
    have hstep : s.step c stream turn = s.receive c stream turn := by rw [Capture.step, hphase]
    rw [hstep]
    exact ⟨pieces, torn, h.receive hphase turn⟩
  | appending message line => exact h.append hphase turn
  | pushing message => exact ⟨pieces, torn, h.push hphase turn⟩
  | sealing => exact h.seal hphase turn
  | failing e => exact h.fail hphase turn
  | notifying =>
    have hextent := h.extent
    have hfailures := h.unreported (by simp [hphase])
    rw [Extent, hphase] at hextent
    rw [Capture.step, hphase]
    exact ⟨pieces, torn, h.owner, h.fits, h.published, by rw [hfailures]; rfl, hextent⟩
  | returned outcome =>
    rw [Capture.step, hphase]
    exact ⟨pieces, torn, h⟩

theorem Capture.Holds.run (turns : List Turn) :
    ∃ pieces torn, (s.run c stream turns).Holds c stream r₀ pieces torn := by
  induction turns generalizing s pieces torn with
  | nil => exact ⟨pieces, torn, h⟩
  | cons turn turns ih =>
    obtain ⟨pieces, torn, h⟩ := h.step turn
    exact ih h

end

/-- At every point of a capture the messages published are the stream's, in order, and their lines
are in the owner; what the owner holds besides is as the phase allows, the failure callback has run
exactly when the capture has returned unavailable, and readers get the bytes and provenance of
every record. -/
theorem capture_before_publish (c : Codec) (hc : c.RoundTrips) (stream : LogStream)
    (r₀ : Recording) (turns : List Turn) :
    ∃ pieces torn, ((Capture.start r₀).run c stream turns).Holds c stream r₀ pieces torn ∧
      (pieces ≠ [] → c.decompress (encode c pieces) = some (pieceBytes pieces)) ∧
      ∀ p frames, OwnerTrace c ⟨p, encode c pieces⟩ frames →
        frames.map (fun f => (f.bytes, f.metadata)) = pieces := by
  obtain ⟨pieces, torn, h⟩ := (Capture.start_holds c stream r₀).run turns
  exact ⟨pieces, torn, h, decompress_encode hc h.fits, fun p frames ht =>
    trace_encode hc h.fits ht rfl⟩

namespace Sample

def stream : LogStream := fun i => [Except.ok (LogMsg.stdout "a"), Except.ok LogMsg.finished][i]?

def recording : Recording :=
  ⟨⟨false, 0, 0, 0, 0, false, false, false⟩, ⟨[], none⟩⟩

def turn (cancelled : Bool) (availableSpace : Nat) : Turn :=
  ⟨cancelled, true, ⟨some availableSpace, 1, []⟩, ⟨some availableSpace, 1, []⟩⟩

def ample : Nat := 2 ^ 20

end Sample

theorem capture_before_publish_sample :
    ∃ pieces torn, ((Capture.start Sample.recording).run storedCodec Sample.stream
        (List.replicate 5 (Sample.turn false Sample.ample))).Holds storedCodec Sample.stream
          Sample.recording pieces torn ∧
      (pieces ≠ [] → storedCodec.decompress (encode storedCodec pieces) =
        some (pieceBytes pieces)) ∧
      ∀ p frames, OwnerTrace storedCodec ⟨p, encode storedCodec pieces⟩ frames →
        frames.map (fun f => (f.bytes, f.metadata)) = pieces :=
  capture_before_publish storedCodec storedCodec_roundTrips Sample.stream Sample.recording _

/-- The capture ends sealed; without space or with the token cancelled it ends unavailable. -/
example :
    ((Capture.start Sample.recording).run storedCodec Sample.stream
        (List.replicate 5 (Sample.turn false Sample.ample))).phase = .returned .complete ∧
      ((Capture.start Sample.recording).run storedCodec Sample.stream
        (List.replicate 5 (Sample.turn false 0))).phase = .returned .unavailable ∧
      ((Capture.start Sample.recording).run storedCodec Sample.stream
        (List.replicate 3 (Sample.turn true Sample.ample))).failures = 1 := by
  decide +kernel

end Cdesktop.ExecutionLog
