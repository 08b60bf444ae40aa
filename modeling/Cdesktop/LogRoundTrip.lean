import Cdesktop.LogSession
import Mathlib.Data.List.Forall2
import Mathlib.Data.List.TakeWhile

namespace Cdesktop.ExecutionLog
open RecordStream
set_option autoImplicit true

inductive LogCall where
  | appendJsonlLine (line : Bytes) (io marker : Storage)
  | appendControlLine (line : Bytes) (io : Storage)
  | appendLegacyBytes (bytes : Bytes) (source : Option LegacySqlRow) (io : Storage)
  | finish (outcome : CaptureOutcome) (io : Storage)
deriving DecidableEq

namespace LogCall

def bytes : LogCall → Bytes
  | appendJsonlLine line _ _ => line
  | appendControlLine line _ => line
  | appendLegacyBytes bytes _ _ => bytes
  | finish _ _ => []

def isControl : LogCall → Bool
  | appendJsonlLine .. => false
  | appendControlLine .. => true
  | appendLegacyBytes .. => false
  | finish .. => true

def source : LogCall → Option LegacySqlRow
  | appendLegacyBytes _ source _ => source
  | _ => none

def outcome : LogCall → Option CaptureOutcome
  | finish outcome _ => some outcome
  | _ => none

def faultless : LogCall → Prop
  | appendJsonlLine _ io marker => ∀ s ∈ io.segments ++ marker.segments,
      s.stored = none ∧ s.indexed = none
  | appendControlLine _ io | appendLegacyBytes _ _ io | finish _ io => ∀ s ∈ io.segments,
      s.stored = none ∧ s.indexed = none

def size (c : Codec) : LogCall → Nat
  | appendJsonlLine line _ _ => line.length + ((markerLine c).getD []).length
  | call => call.bytes.length

end LogCall

def Recording.perform (c : Codec) (call : LogCall) (r : Recording) : Served LogAppend :=
  match call with
  | .appendJsonlLine line io marker => r.appendJsonlLine c line io marker
  | .appendControlLine line io => r.appendControlLine c line io
  | .appendLegacyBytes bytes source io => r.appendLegacyBytes c bytes source io
  | .finish outcome io => (r.finish c outcome io).andThen fun _ r => (.ok .written, r)

/-- The frames a call with that answer has added to the owner: its bytes under its own provenance,
the marker in place of a refused line, or nothing; a call stopped by an error has added whole
frames of its bytes, or of the marker's, up to there. -/
inductive Recorded (c : Codec) : LogCall → Except LogError LogAppend → List DecodedFrame → Prop
  | all : content group = call.bytes →
      (∀ f ∈ group, f.metadata.control = call.isControl ∧ f.metadata.outcome = call.outcome ∧
        f.metadata.legacySqlRow = call.source) → Recorded c call (.ok .written) group
  | nothing : answer ≠ .ok .written → Recorded c call answer []
  | marker : markerLine c = some text → content group = text →
      (∀ f ∈ group, f.metadata.control = true ∧ f.metadata.outcome = none ∧
        f.metadata.legacySqlRow = none) →
      Recorded c (.appendJsonlLine line io marker) (.ok .unavailable) group
  | cut : content group <+: call.bytes →
      (∀ f ∈ group, f.metadata.control = call.isControl ∧ f.metadata.outcome = call.outcome ∧
        f.metadata.legacySqlRow = call.source) → Recorded c call (.error e) group
  | markerCut : markerLine c = some text → content group <+: text →
      (∀ f ∈ group, f.metadata.control = true ∧ f.metadata.outcome = none ∧
        f.metadata.legacySqlRow = none) →
      Recorded c (.appendJsonlLine line io marker) (.error e) group

theorem flatten_take_prefix (l : List Bytes) (n : Nat) : (l.take n).flatten <+: l.flatten := by
  refine ⟨(l.drop n).flatten, ?_⟩
  rw [← List.flatten_append, List.take_append_drop]

def WrittenBy (inputs : List Bytes) (answer : Except LogError LogAppend)
    (new : List DecodedFrame) : Prop :=
  (answer = .ok .written ∧ content new = inputs.flatten) ∨
    (answer ≠ .ok .written ∧ new = []) ∨
      (∃ e, answer = .error e) ∧ content new <+: inputs.flatten

variable {control : Bool} {r : Recording} {session : LogSession}

theorem AppendEnd.recorded (h : AppendEnd c r frames control row ios inputs x new)
    (ha : Accounts c r frames) (hios : ∀ s ∈ ios, s.stored = none ∧ s.indexed = none) :
    Accounts c x.2 (frames ++ new) ∧ SameSetup r x.2 ∧
      (Listed c r.index frames → Listed c x.2.index (frames ++ new)) ∧
      (∀ f ∈ new, f.metadata.control = control ∧ f.metadata.outcome = none ∧
        f.metadata.legacySqlRow = row) ∧ WrittenBy inputs x.1 new := by
  have hindexed : ∀ io ∈ ios, io.indexed = none := fun io hio => (hios io hio).2
  cases h with
  | declined hne =>
    rw [List.append_nil]
    refine ⟨ha, SameSetup.refl r, id, ?_, Or.inr (Or.inl ⟨hne, rfl⟩)⟩
    intro f hf
    cases hf
  | wrote hw he hl =>
    cases he with
    | written hn =>
      refine ⟨hw.accounts, hw.setup, hl hindexed, hw.marks, Or.inl ⟨rfl, ?_⟩⟩
      rw [hw.content, hn, List.take_length]
    | refused hn =>
      refine ⟨hw.accounts, hw.setup, hl hindexed, hw.marks, Or.inr (Or.inr ⟨⟨_, rfl⟩, ?_⟩)⟩
      rw [hw.content]
      exact flatten_take_prefix inputs _
    | torn _ hio hs =>
      rw [(hios _ hio).1] at hs
      cases hs

theorem Recorded.of_append {call : LogCall} {inputs : List Bytes}
    (hw : WrittenBy inputs answer new) (hinputs : inputs.flatten = call.bytes)
    (hcall : call.isControl = control ∧ call.outcome = none ∧ call.source = row)
    (hmarks : ∀ f ∈ new, f.metadata.control = control ∧ f.metadata.outcome = none ∧
      f.metadata.legacySqlRow = row) :
    Recorded c call answer new := by
  obtain ⟨rfl, hcalloutcome, rfl⟩ := hcall
  rw [← hcalloutcome] at hmarks
  obtain ⟨rfl, hcontent⟩ | ⟨hanswer, rfl⟩ | ⟨⟨e, rfl⟩, hcontent⟩ := hw
  · exact .all (hcontent.trans hinputs) hmarks
  · exact .nothing hanswer
  · exact .cut (by rwa [hinputs] at hcontent) hmarks

theorem Recorded.of_marker (hw : WrittenBy (frameChunks text) x.1 new)
    (htext : markerLine c = some text)
    (hmarks : ∀ f ∈ new, f.metadata.control = true ∧ f.metadata.outcome = none ∧
      f.metadata.legacySqlRow = none) :
    Recorded c (.appendJsonlLine line io io')
      (Served.andThen x fun _ r => (.ok .unavailable, r)).1 new := by
  obtain ⟨answer, r⟩ := x
  simp only [WrittenBy, frameChunks_flatten] at hw
  obtain ⟨rfl, hcontent⟩ | ⟨-, rfl⟩ | ⟨⟨e, rfl⟩, hcontent⟩ := hw
  · exact .marker htext hcontent hmarks
  · cases answer <;> exact .nothing (by simp [Served.andThen])
  · exact .markerCut htext hcontent hmarks

theorem Served.andThen_recording (x : Served α) (answer : α → Except LogError β) :
    (x.andThen fun a r => (answer a, r)).2 = x.2 := by
  obtain ⟨result, r⟩ := x
  cases result <;> rfl

theorem Accounts.perform (hc : c.RoundTrips) (h : Accounts c r frames)
    (call : LogCall) (hfaultless : call.faultless)
    (hbytes : r.uncompressedOffset + call.size c ≤ maxU64) :
    ∃ group, Recorded c call (r.perform c call).1 group ∧
      Accounts c (r.perform c call).2 (frames ++ group) ∧
      (Listed c r.index frames → Listed c (r.perform c call).2.index (frames ++ group)) ∧
      (r.perform c call).2.freeDiskReserveBytes = r.freeDiskReserveBytes := by
  cases call with
  | appendControlLine line io =>
    obtain ⟨new, hend⟩ := h.appendControlLine hc hbytes io
    obtain ⟨ha, hs, hl, hm, hw⟩ := hend.recorded h hfaultless
    exact ⟨new, .of_append hw (frameChunks_flatten line) ⟨rfl, rfl, rfl⟩ hm, ha, hl,
      hs.freeDiskReserve⟩
  | appendLegacyBytes bytes source io =>
    obtain ⟨new, hend⟩ := h.appendLegacyBytes hc hbytes source io
    obtain ⟨ha, hs, hl, hm, hw⟩ := hend.recorded h hfaultless
    refine ⟨new, .of_append hw ?_ ⟨rfl, rfl, rfl⟩ hm, ha, hl, hs.freeDiskReserve⟩
    split
    · rename_i hnil
      exact hnil.symm
    · exact frameChunks_flatten bytes
  | appendJsonlLine line io marker =>
    have hline : r.uncompressedOffset + line.length ≤ maxU64 := by
      simp only [LogCall.size] at hbytes
      omega
    have htext : ∀ text ∈ markerLine c, r.uncompressedOffset + text.length ≤ maxU64 := by
      intro text htext
      simp only [LogCall.size, Option.mem_def.mp htext, Option.getD_some] at hbytes
      omega
    have hio : ∀ s ∈ io.segments, s.stored = none ∧ s.indexed = none :=
      fun s hs => hfaultless s (List.mem_append_left _ hs)
    have hmarker : ∀ s ∈ marker.segments, s.stored = none ∧ s.indexed = none :=
      fun s hs => hfaultless s (List.mem_append_right _ hs)
    obtain ⟨new, hend⟩ | heq | ⟨text, new, x, htext, hend, heq⟩ :=
      h.appendJsonlLine hc hline htext io marker
    · obtain ⟨ha, hs, hl, hm, hw⟩ := hend.recorded h hio
      exact ⟨new, .of_append hw (frameChunks_flatten line) ⟨rfl, rfl, rfl⟩ hm, ha, hl,
        hs.freeDiskReserve⟩
    · refine ⟨[], ?_⟩
      rw [Recording.perform, heq, List.append_nil]
      exact ⟨.nothing (by simp), h.withMarker true, id, rfl⟩
    · obtain ⟨ha, hs, hl, hm, hw⟩ := hend.recorded (h.withMarker true) hmarker
      rw [Recording.perform, heq, Served.andThen_recording]
      exact ⟨new, .of_marker hw htext hm, ha, hl, hs.freeDiskReserve⟩
  | finish outcome io =>
    have hend := h.finish hc (by exact hbytes) outcome io
    rw [Recording.perform, Served.andThen_recording]
    generalize r.finish c outcome io = x at hend
    cases hend with
    | declined =>
      refine ⟨[], .nothing (by simp [Served.andThen]), ?_⟩
      rw [List.append_nil]
      exact ⟨h, id, rfl⟩
    | closed hfb hfo hfc hfr ha hsealed hreserve hl =>
      refine ⟨[_], .all ?_ ?_, ha, hl (fun s hs => (hfaultless s hs).2), hreserve⟩
      · rw [content_cons, hfb]
        rfl
      · intro g hg
        rw [List.mem_singleton.mp hg]
        exact ⟨hfc, hfo, hfr⟩
    | torn hio hs =>
      rw [(hfaultless _ hio).1] at hs
      cases hs

theorem Recording.writeSegment_control
    (h : r.writeSegment c io input capturedAt control outcome row = (answer, r')) :
    r'.controlBytes ≤ r.controlBytes + if control then input.length else 0 := by
  obtain ⟨-, rfl, -⟩ | ⟨-, landed, -, rfl⟩ | ⟨-, -, -, rfl⟩ := Recording.writeSegment_cases rfl h
  · exact Nat.le_add_right _ _
  · exact Nat.le_add_right _ _
  · obtain ⟨hasIndex, index, hrest⟩ := Recording.appendIndex_rest io _ _
    rw [hrest]
    cases control with
    | true => exact Nat.min_le_left _ _
    | false => exact Nat.le_refl _

variable (ios : List SegmentIo) (inputs : List Bytes)

namespace Recording

theorem writeSegments_control
    (r : Recording) :
    (r.writeSegments c capturedAt control row ios inputs).2.controlBytes ≤
      r.controlBytes + if control then inputs.flatten.length else 0 := by
  induction inputs generalizing r ios with
  | nil => exact Nat.le_add_right _ _
  | cons input inputs ih =>
    rw [writeSegments]
    generalize hw : r.writeSegment c (ios.headD .sound) input capturedAt control none row = x
    obtain ⟨answer, r₁⟩ := x
    have hseg := writeSegment_control hw
    cases answer with
    | error e =>
      simp only [Served.andThen]
      cases control with
      | true =>
        simp only [if_true, List.flatten_cons, List.length_append] at hseg ⊢
        omega
      | false => exact hseg
    | ok u =>
      have hrest := ih ios.tail r₁
      simp only [Served.andThen]
      cases control with
      | true =>
        simp only [if_true, List.flatten_cons, List.length_append] at hseg hrest ⊢
        omega
      | false => exact hrest.trans hseg

theorem writeSegments_plain (r : Recording)
    (answer : Except LogError LogAppend)
    (h : r.controlBytes ≤ controlOverdraftBytes) :
    ((r.writeSegments c capturedAt false row ios inputs).andThen fun _ r =>
      (answer, r)).2.controlBytes ≤ controlOverdraftBytes := by
  rw [Served.andThen_recording _ fun _ => answer]
  exact (writeSegments_control ios inputs r).trans h

section
variable (h : r.controlBytes ≤ controlOverdraftBytes)
include h

theorem appendControlLine_control (line : Bytes) (io : Storage) :
    (r.appendControlLine c line io).2.controlBytes ≤ controlOverdraftBytes := by
  unfold appendControlLine
  obtain ⟨hw, -, -⟩ | ⟨hw, -⟩ := r.ensureWritable_cases
  · rw [hw]
    simp only [Served.andThen]
    split
    · exact h
    rename_i hroom
    obtain hspace | ⟨admitted, hspace⟩ := r.hasControlSpace_cases io line.length
    · rw [hspace]
      exact h
    rw [hspace]
    cases admitted with
    | false => exact h
    | true =>
      show ((r.writeSegments c (some io.now) true none io.segments (frameChunks line)).andThen
        fun _ r => (.ok LogAppend.written, r)).2.controlBytes ≤ controlOverdraftBytes
      rw [Served.andThen_recording _ fun _ => .ok LogAppend.written]
      refine (writeSegments_control _ _ _).trans ?_
      rw [if_pos rfl, frameChunks_flatten]
      unfold saturatingAdd at hroom
      have hmax : controlOverdraftBytes < maxU64 := by decide
      omega
  · rw [hw]
    exact h

theorem publishUnavailableMarker_control (io : Storage) :
    (r.publishUnavailableMarker c io).2.controlBytes ≤ controlOverdraftBytes := by
  unfold publishUnavailableMarker
  split
  · exact h
  cases markerLine c with
  | none => exact h
  | some text =>
    have h' : ({ r with markerWritten := true } : Recording).controlBytes ≤
        controlOverdraftBytes := h
    simp only [Served.andThen_recording _ fun _ => .ok ()]
    exact appendControlLine_control h' text io

theorem ensured_control {f : Unit → Recording → Served α} (hf : (f () r).2.controlBytes ≤ controlOverdraftBytes) :
    (r.ensureWritable.andThen f).2.controlBytes ≤ controlOverdraftBytes := by
  obtain ⟨hw, -⟩ | ⟨hw, -⟩ := r.ensureWritable_cases
  · rw [hw]
    exact hf
  · rw [hw]
    exact h

theorem perform_control (call : LogCall) : (r.perform c call).2.controlBytes ≤ controlOverdraftBytes := by
  cases call with
  | appendControlLine line io => exact appendControlLine_control h line io
  | appendLegacyBytes bytes source io =>
    refine ensured_control h ?_
    obtain hspace | ⟨admitted, hspace⟩ := r.hasDiskReserve_cases io bytes.length
    · rw [hspace]
      exact h
    rw [hspace]
    cases admitted with
    | false => exact h
    | true => exact writeSegments_plain _ _ r _ h
  | appendJsonlLine line io marker =>
    refine ensured_control h ?_
    obtain hspace | ⟨admitted, hspace⟩ := r.hasDiskReserve_cases io line.length
    · rw [hspace]
      exact h
    rw [hspace]
    cases admitted with
    | true => exact writeSegments_plain _ _ r _ h
    | false =>
      show ((r.publishUnavailableMarker c marker).andThen fun _ r =>
        (.ok LogAppend.unavailable, r)).2.controlBytes ≤ controlOverdraftBytes
      rw [Served.andThen_recording _ fun _ => .ok LogAppend.unavailable]
      exact publishUnavailableMarker_control h marker
  | finish outcome io =>
    rw [perform, Served.andThen_recording _ fun _ => .ok LogAppend.written]
    refine ensured_control h ?_
    obtain hspace | ⟨admitted, hspace⟩ := r.hasControlSpace_cases io 0
    · rw [hspace]
      exact h
    rw [hspace]
    cases admitted with
    | false => exact h
    | true =>
      show ((r.writeSegment c (io.segments.headD .sound) [] (some io.now) true (some outcome)
        none).andThen fun _ r => (.ok (), { r with sealed := true })).2.controlBytes ≤
          controlOverdraftBytes
      generalize hw : r.writeSegment c (io.segments.headD .sound) [] (some io.now) true
        (some outcome) none = x
      obtain ⟨answer, r'⟩ := x
      have hseg := (writeSegment_control hw).trans h
      cases answer <;> exact hseg

end

end Recording

inductive Sidecar where
  | kept
  | replaced (index : Option Bytes)

def Sidecar.found : Sidecar → Option Bytes → Option Bytes
  | kept, index => index
  | replaced index, _ => index

inductive LogStep where
  | perform (call : LogCall)
  | reopen (hasIndex : Bool) (sidecar : Sidecar)

def LogStep.faultless : LogStep → Prop
  | perform call => call.faultless
  | reopen .. => True

def LogStep.size (c : Codec) : LogStep → Nat
  | perform call => call.size c
  | reopen .. => 0

/-- The sidecar is found as the writer left it, or not at all. -/
def LogStep.keepsSidecar : LogStep → Prop
  | reopen _ (.replaced (some _)) => False
  | _ => True

inductive LogSession where
  | opened (r : Recording)
  | closed (files : LogFiles)
deriving DecidableEq

namespace LogSession

def files : LogSession → LogFiles
  | opened r => r.toLogFiles
  | closed files => files

def ofOpen : Except LogError Recording × LogFiles → LogSession
  | (.ok r, _) => opened r
  | (.error _, files) => closed files

def fresh (c : Codec) (reserve : Nat) (hasIndex : Bool) (index : Option Bytes) : LogSession :=
  ofOpen (openLog c reserve hasIndex none index)

def step (c : Codec) : LogStep → LogSession → Option (LogCall × Except LogError LogAppend) × LogSession
  | .perform call, opened r => (some (call, (r.perform c call).1), opened (r.perform c call).2)
  | .reopen hasIndex sidecar, opened r => (none,
      ofOpen (openLog c r.freeDiskReserveBytes hasIndex (some r.owner) (sidecar.found r.index)))
  | _, closed files => (none, closed files)

def run (c : Codec) : List LogStep → LogSession →
    List (LogCall × Except LogError LogAppend) × LogSession
  | [], session => ([], session)
  | step :: steps, session =>
    let (answer, session) := session.step c step
    let (answers, session) := session.run c steps
    (answer.toList ++ answers, session)

/-- What the frames say of a session; of the sidecar only while nobody else has written it. -/
def Holds (c : Codec) (kept : Prop) (frames : List DecodedFrame) : LogSession → Prop
  | opened r => Accounts c r frames ∧ (kept → Listed c r.index frames) ∧
      r.controlBytes ≤ controlOverdraftBytes
  | closed files => Records (readOwnerFrame c) 0 files.owner frames ∧ Contiguous 0 frames ∧
      SealedLast frames ∧ (kept → Listed c files.index frames) ∧
        ∀ summary, scanOwner c files.owner ≠ .ok summary

end LogSession

theorem LogSession.holds_open (hr : Records (readOwnerFrame c) 0 owner frames)
    (hc : Contiguous 0 frames) (hs : SealedLast frames)
    (hcontrol : (controlContent frames).length ≤ controlOverdraftBytes)
    (hl : kept → Listed c index frames) (reserve : Nat) (hasIndex : Bool) :
    (LogSession.ofOpen (openLog c reserve hasIndex (some owner) index)).Holds c kept frames := by
  obtain ⟨files, howner, hindex, ⟨e, hscan, hopen⟩ | ⟨summary, hscan, hopen⟩⟩ :=
    openLog_cases c reserve hasIndex (some owner) index
  all_goals
    obtain rfl : owner = files.owner := howner.symm
    have hlisted : kept → Listed c files.index frames := by
      intro hk
      rw [hindex]
      cases index with
      | none =>
        cases hasIndex with
        | false => exact hl hk
        | true =>
          intro text htext
          obtain rfl : [] = text := by simpa using htext
          exact ⟨[], List.nil_subset _, rfl⟩
      | some text => simpa using hl hk
  · rw [hopen]
    refine ⟨hr, hc, hs, hlisted, ?_⟩
    intro summary h
    rw [hscan] at h
    cases h
  · rw [hopen]
    obtain ⟨hbytes, hcontrolBytes, houtcome⟩ := scanOwner_summary hr.trace hc hs hscan
    refine ⟨?_, hlisted, by rwa [← hcontrolBytes] at hcontrol⟩
    exact
      { records := hr
        contiguous := hc
        sealedLast := hs
        written := rfl
        offset := hbytes
        control := hcontrolBytes
        closed := by rw [← houtcome]
        clean := rfl }

theorem Recorded.size_le (h : Recorded c call answer group) :
    (content group).length ≤ call.size c := by
  have hbytes : call.bytes.length ≤ call.size c := by
    cases call with
    | appendJsonlLine line _ _ => exact Nat.le_add_right line.length _
    | _ => exact Nat.le_refl _
  cases h with
  | all hc => rwa [hc]
  | nothing => exact Nat.zero_le _
  | marker htext hc =>
    rw [hc, LogCall.size, htext]
    exact Nat.le_add_left _ _
  | cut hc => exact hc.length_le.trans hbytes
  | markerCut htext hc =>
    rw [LogCall.size, htext]
    exact hc.length_le.trans (Nat.le_add_left _ _)

theorem LogSession.Holds.step (hc : c.RoundTrips)
    (h : session.Holds c kept frames) (step : LogStep) (hfaultless : step.faultless)
    (hkept : kept → step.keepsSidecar) (hbytes : (content frames).length + step.size c ≤ maxU64) :
    ∃ groups, List.Forall₂ (fun entry group => Recorded c entry.1 entry.2 group)
        (session.step c step).1.toList groups ∧
      (session.step c step).2.Holds c kept (frames ++ groups.flatten) ∧
      (content groups.flatten).length ≤ step.size c := by
  cases session with
  | closed files =>
    refine ⟨[], ?_, ?_, Nat.zero_le _⟩
    · cases step <;> exact .nil
    · rw [List.flatten_nil, List.append_nil]
      cases step <;> exact h
  | opened r =>
    obtain ⟨ha, hl, hreserve⟩ := h
    cases step with
    | perform call =>
      rw [← ha.offset] at hbytes
      obtain ⟨group, hrec, ha', hl', -⟩ := ha.perform hc call hfaultless hbytes
      refine ⟨[group], .cons hrec .nil, ?_, ?_⟩
      · rw [List.flatten_singleton]
        exact ⟨ha', fun hk => hl' (hl hk), Recording.perform_control hreserve call⟩
      · rw [List.flatten_singleton]
        exact hrec.size_le
    | reopen hasIndex sidecar =>
      refine ⟨[], .nil, ?_, Nat.zero_le _⟩
      rw [List.flatten_nil, List.append_nil]
      refine LogSession.holds_open ha.records ha.contiguous ha.sealedLast ?_ ?_ _ _
      · rwa [← ha.control]
      · intro hk
        cases sidecar with
        | kept => exact hl hk
        | replaced index =>
          cases index with
          | none =>
            intro text htext
            cases htext
          | some text => exact (hkept hk).elim

theorem LogSession.Holds.run (hc : c.RoundTrips)
    (h : session.Holds c kept frames) (steps : List LogStep)
    (hfaultless : ∀ step ∈ steps, step.faultless) (hkept : kept → ∀ step ∈ steps, step.keepsSidecar)
    (hbytes : (content frames).length + (steps.map (LogStep.size c)).sum ≤ maxU64) :
    ∃ groups, List.Forall₂ (fun entry group => Recorded c entry.1 entry.2 group)
        (session.run c steps).1 groups ∧
      (session.run c steps).2.Holds c kept (frames ++ groups.flatten) := by
  induction steps generalizing session frames with
  | nil =>
    refine ⟨[], .nil, ?_⟩
    rw [List.flatten_nil, List.append_nil]
    exact h
  | cons step steps ih =>
    rw [List.map_cons, List.sum_cons] at hbytes
    obtain ⟨groups, hrec, hstep, hsize⟩ := h.step hc step (hfaultless step List.mem_cons_self)
      (fun hk => hkept hk step List.mem_cons_self) (by omega)
    obtain ⟨groups', hrec', hrun⟩ := ih hstep
      (fun s hs => hfaultless s (List.mem_cons_of_mem _ hs))
      (fun hk s hs => hkept hk s (List.mem_cons_of_mem _ hs))
      (by rw [content_append, List.length_append]; omega)
    refine ⟨groups ++ groups', ?_, ?_⟩
    · exact List.rel_append hrec hrec'
    · rw [List.flatten_append, ← List.append_assoc]
      exact hrun

def Recording.withoutIndex (r : Recording) : Recording := { r with hasIndex := false, index := none }

def Blind (f : Recording → Served α) : Prop :=
  ∀ r, f r.withoutIndex = ((f r).1, (f r).2.withoutIndex)

theorem Blind.andThen {f : Recording → Served α} {g : α → Recording → Served β} (hf : Blind f)
    (hg : ∀ a, Blind (g a)) : Blind fun r => (f r).andThen g := by
  intro r
  simp only [hf r]
  obtain ⟨answer, r'⟩ := f r
  cases answer with
  | error e => rfl
  | ok a => exact hg a r'

theorem Blind.answer (answer : Except LogError α) : Blind fun r => (answer, r) :=
  fun _ => rfl

theorem Blind.ite (p : Recording → Prop) [DecidablePred p]
    (hp : ∀ r, p r.withoutIndex ↔ p r) {f g : Recording → Served α} (hf : Blind f)
    (hg : Blind g) : Blind fun r => if p r then f r else g r := by
  intro r
  by_cases h : p r
  · simp only [if_pos h, if_pos ((hp r).mpr h)]
    exact hf r
  · simp only [if_neg h, if_neg (mt (hp r).mp h)]
    exact hg r

theorem Recording.withoutIndex_appendIndex (io : SegmentIo) (line : Bytes) (r : Recording) :
    (r.appendIndex io line).withoutIndex = r.withoutIndex := by
  obtain ⟨hasIndex, index, h⟩ := Recording.appendIndex_rest io line r
  rw [h]
  rfl

namespace Blind

theorem writeSegment (io : SegmentIo) (input : Bytes) :
    Blind (Recording.writeSegment c io input capturedAt control outcome row) := by
  intro r
  have hoffset : r.withoutIndex.uncompressedOffset = r.uncompressedOffset := rfl
  unfold Recording.writeSegment
  rw [hoffset]
  simp only
  generalize (⟨capturedAt, r.uncompressedOffset, control, outcome, row⟩ : CapturedLogMetadata) = m
  by_cases hencoded : io.encoded = false
  · rw [if_pos hencoded, if_pos hencoded]
  rw [if_neg hencoded, if_neg hencoded]
  by_cases hjson : maxCaptureMetadataBytes < (c.metadataToJson m).length
  · rw [if_pos hjson, if_pos hjson]
  rw [if_neg hjson, if_neg hjson]
  by_cases hsmall : maxCaptureMetadataBytes < (c.compress 1 (c.metadataToJson m)).length
  · rw [if_pos hsmall, if_pos hsmall]
  rw [if_neg hsmall, if_neg hsmall]
  cases io.stored with
  | some landed => rfl
  | none =>
    simp only [Recording.withoutIndex_appendIndex]
    rfl

theorem writeSegments :
    Blind (Recording.writeSegments c capturedAt control row ios inputs) := by
  induction inputs generalizing ios with
  | nil => exact answer _
  | cons input inputs ih =>
    simp only [Recording.writeSegments]
    exact (writeSegment _ _).andThen fun _ => ih ios.tail

theorem ensureWritable : Blind Recording.ensureWritable :=
  ite (fun r => (r.poisoned || r.sealed) = true) (fun _ => Iff.rfl) (answer _)
    (answer _)

theorem hasDiskReserve (io : Storage) (n : Nat) : Blind (Recording.hasDiskReserve io n) := by
  intro r
  unfold Recording.hasDiskReserve
  cases io.availableSpace <;> rfl

theorem hasControlSpace (io : Storage) (n : Nat) :
    Blind (Recording.hasControlSpace io n) := by
  intro r
  unfold Recording.hasControlSpace
  cases io.availableSpace <;> rfl

theorem appendControlLine (line : Bytes) (io : Storage) :
    Blind (Recording.appendControlLine c line io) := by
  unfold Recording.appendControlLine
  refine ensureWritable.andThen fun _ => ?_
  refine ite (fun r => controlOverdraftBytes < saturatingAdd r.controlBytes line.length)
    (fun _ => Iff.rfl) (answer _) ?_
  refine (hasControlSpace _ _).andThen fun admitted => ?_
  refine ite (fun _ => admitted = true) (fun _ => Iff.rfl) ?_ (answer _)
  exact (writeSegments _ _).andThen fun _ => answer _

theorem publishUnavailableMarker (io : Storage) :
    Blind (Recording.publishUnavailableMarker c io) := by
  unfold Recording.publishUnavailableMarker
  refine ite (fun r => r.markerWritten = true) (fun _ => Iff.rfl) (answer _) ?_
  intro r
  cases markerLine c with
  | none => rfl
  | some text =>
    have h : Blind fun r => (Recording.appendControlLine c text io r).andThen
        fun _ r => (.ok (), r) := (appendControlLine text io).andThen fun _ => answer _
    exact h { r with markerWritten := true }

theorem perform (call : LogCall) : Blind (Recording.perform c call) := by
  cases call with
  | appendControlLine line io => exact appendControlLine line io
  | appendLegacyBytes bytes source io =>
    refine ensureWritable.andThen fun _ => (hasDiskReserve _ _).andThen fun admitted => ?_
    exact ite (fun _ => admitted = true) (fun _ => Iff.rfl)
      ((writeSegments _ _).andThen fun _ => answer _) (answer _)
  | appendJsonlLine line io marker =>
    refine ensureWritable.andThen fun _ => (hasDiskReserve _ _).andThen fun admitted => ?_
    refine ite (fun _ => admitted = true) (fun _ => Iff.rfl)
      ((writeSegments _ _).andThen fun _ => answer _) ?_
    exact (publishUnavailableMarker marker).andThen fun _ => answer _
  | finish outcome io =>
    refine andThen (f := Recording.finish c outcome io) ?_ fun _ => answer _
    refine ensureWritable.andThen fun _ => (hasControlSpace _ _).andThen fun admitted => ?_
    exact ite (fun _ => admitted = true) (fun _ => Iff.rfl)
      ((writeSegment _ _).andThen fun _ _ => rfl) (answer _)

end Blind

def Recording.performs (c : Codec) : List LogCall → Recording →
    List (Except LogError LogAppend) × Recording
  | [], r => ([], r)
  | call :: calls, r =>
    let (answer, r) := r.perform c call
    let (answers, r) := r.performs c calls
    (answer :: answers, r)

theorem Recording.performs_withoutIndex (calls : List LogCall) (r : Recording) :
    r.withoutIndex.performs c calls =
      ((r.performs c calls).1, (r.performs c calls).2.withoutIndex) := by
  induction calls generalizing r with
  | nil => rfl
  | cons call calls ih =>
    have h := Blind.perform (c := c) call r
    simp only [Recording.performs, h, ih]

structure OwnerHolds (c : Codec) (files : LogFiles) (frames : List DecodedFrame) (kept : Prop) :
    Prop where
  trace : OwnerTrace c ⟨0, files.owner⟩ frames
  decompressed : files.owner ≠ [] → c.decompress files.owner = some (content frames)
  range : kept ∨ DecodesAtFrames c files.owner → ∀ start stop, validateRange start stop = .ok () →
    readExecutionLogRangeBytes c files.owner files.index start stop =
      .ok (((content frames).drop start).take (stop - start))
  scanned : (∃ summary, scanOwner c files.owner = .ok summary) ↔
    rowsComplete none 0 (legacyRows frames) = true

structure Resumes (c : Codec) (r : Recording) (frames : List DecodedFrame) : Prop where
  summary : ∀ summary, scanOwner c r.owner = .ok summary →
    summary.uncompressedBytes = r.uncompressedOffset ∧ summary.controlBytes = r.controlBytes ∧
      summary.outcome.isSome = r.sealed
  reopened : ∀ summary, scanOwner c r.owner = .ok summary → ∀ hasIndex index,
    ∃ r', (openLog c r.freeDiskReserveBytes hasIndex (some r.owner) index).1 = .ok r' ∧
      r'.withoutIndex = { r with markerWritten := false }.withoutIndex ∧
      (r.markerWritten = false → ∀ calls, (r'.performs c calls).1 = (r.performs c calls).1 ∧
        (r'.performs c calls).2.withoutIndex = (r.performs c calls).2.withoutIndex)
  final : r.sealed = true → ∀ call, r.perform c call = (.error .requiresRecovery, r)
  control : (controlContent frames).length ≤ controlOverdraftBytes

theorem readIndexLine_line (l rest : Bytes) (h : newline ∉ l) :
    (l.length ≤ maxFrameIndexLineBytes ∧
        readIndexLine (l ++ newline :: rest) = (l ++ [newline], rest)) ∨
      maxFrameIndexLineBytes < (readIndexLine (l ++ newline :: rest)).1.length := by
  have hl : ∀ b ∈ l, (b ≠ newline : Bool) = true := by
    intro b hb
    simp only [ne_eq, decide_not, Bool.not_eq_eq_eq_not, Bool.not_true, decide_eq_false_iff_not]
    rintro rfl
    exact h hb
  by_cases hlen : l.length ≤ maxFrameIndexLineBytes
  · left
    refine ⟨hlen, ?_⟩
    have htake : (l ++ newline :: rest).take (maxFrameIndexLineBytes + 1) =
        l ++ newline :: rest.take (maxFrameIndexLineBytes - l.length) := by
      have hsub : maxFrameIndexLineBytes + 1 - l.length = maxFrameIndexLineBytes - l.length + 1 := by
        omega
      rw [List.take_append, List.take_of_length_le (by omega), hsub, List.take_succ_cons]
    have hwhile : (l ++ newline :: rest.take (maxFrameIndexLineBytes - l.length)).takeWhile
        (· ≠ newline) = l := takeWhile_line l h _
    have hdrop : ((l ++ newline :: rest.take (maxFrameIndexLineBytes - l.length)).dropWhile
        (· ≠ newline)).take 1 = [newline] := by
      rw [List.dropWhile_append_of_pos hl]
      simp
    simp only [readIndexLine, htake, hwhile, hdrop]
    simp
  · right
    have htake : (l ++ newline :: rest).take (maxFrameIndexLineBytes + 1) =
        l.take (maxFrameIndexLineBytes + 1) := by
      rw [List.take_append_of_le_length (by omega)]
    have hwhile : (l.take (maxFrameIndexLineBytes + 1)).takeWhile (· ≠ newline) =
        l.take (maxFrameIndexLineBytes + 1) :=
      List.takeWhile_eq_self_iff.mpr fun b hb => hl b (List.mem_of_mem_take hb)
    simp only [readIndexLine, htake, hwhile, List.length_append, List.length_take]
    omega

theorem Listed.leadsTo (hc : c.RoundTrips) (ht : OwnerTrace c ⟨0, owner⟩ frames) :
    LeadsTo c owner frames fun index => Listed c (some index) frames := by
  intro index line rest hlisted hread hne hline frame hparse hlead
  obtain ⟨listed, hsub, rfl⟩ := hlisted index rfl
  cases listed with
  | nil =>
    obtain ⟨rfl, -⟩ := Prod.mk.inj hread
    exact absurd rfl hne
  | cons g listed =>
    have hsplit : (g :: listed).flatMap (indexLine c) =
        c.frameToJson g.locator.clamp ++ newline :: listed.flatMap (indexLine c) := by
      simp [indexLine]
    rw [hsplit] at hread
    obtain ⟨-, heq⟩ | hlong := readIndexLine_line (c.frameToJson g.locator.clamp)
      (listed.flatMap (indexLine c)) (hc.frame_line _)
    · rw [heq] at hread
      obtain ⟨rfl, rfl⟩ := Prod.mk.inj hread
      rw [hc.frame_json] at hparse
      obtain rfl := Option.some.inj hparse
      refine ⟨?_, ?_⟩
      · intro text htext
        exact ⟨listed, List.Subset.trans (List.subset_cons_self _ _) hsub, (Option.some.inj htext).symm⟩
      · intro f t hr
        left
        have hg := hsub List.mem_cons_self
        obtain ⟨q, u, hq⟩ := Trace.read_at (readOwnerFrame_advancing c) (p := 0) ht hg
        have hpos : g.locator.compressedStart = q := readOwnerFrame_position hq
        have hclamp : g.locator.clamp.compressedStart = q := by
          simp only [LogFrame.clamp] at hlead ⊢
          omega
        rw [hclamp, hq] at hr
        obtain ⟨rfl, -⟩ := Prod.mk.inj (Except.ok.inj hr)
        exact hg
    · rw [hread] at hlong
      exact absurd hline (Nat.not_le.mpr hlong)

theorem Recording.perform_sealed (h : r.sealed = true) (call : LogCall) :
    r.perform c call = (.error .requiresRecovery, r) := by
  have hw : r.ensureWritable = (.error .requiresRecovery, r) := by
    rw [Recording.ensureWritable, h, Bool.or_true, if_pos rfl]
  cases call with
  | appendJsonlLine =>
    rw [Recording.perform, Recording.appendJsonlLine, hw]
    rfl
  | appendControlLine =>
    rw [Recording.perform, Recording.appendControlLine, hw]
    rfl
  | appendLegacyBytes =>
    rw [Recording.perform, Recording.appendLegacyBytes, hw]
    rfl
  | finish =>
    rw [Recording.perform, Recording.finish, hw]
    rfl

theorem Accounts.resumes (h : Accounts c r frames)
    (hreserve : r.controlBytes ≤ controlOverdraftBytes) : Resumes c r frames where
  summary := by
    intro summary hscan
    obtain ⟨hbytes, hcontrol, houtcome⟩ :=
      scanOwner_summary h.records.trace h.contiguous h.sealedLast hscan
    exact ⟨hbytes.trans h.offset.symm, hcontrol.trans h.control.symm,
      by rw [houtcome, h.closed]⟩
  reopened := by
    intro summary hscan hasIndex index
    obtain ⟨hbytes, hcontrol, houtcome⟩ :=
      scanOwner_summary h.records.trace h.contiguous h.sealedLast hscan
    obtain ⟨files, howner, -, ⟨e, herror, -⟩ | ⟨found, hfound, hopen⟩⟩ :=
      openLog_cases c r.freeDiskReserveBytes hasIndex (some r.owner) index
    all_goals
      have howner : files.owner = r.owner := howner
    · rw [howner, hscan] at herror
      cases herror
    · rw [howner, hscan] at hfound
      obtain rfl := Except.ok.inj hfound
      have hsame : (⟨{ hasIndex
                       written := min files.owner.length maxU64
                       uncompressedOffset := summary.uncompressedBytes
                       controlBytes := summary.controlBytes
                       freeDiskReserveBytes := r.freeDiskReserveBytes
                       markerWritten := false
                       poisoned := false
                       sealed := summary.outcome.isSome }, files⟩ : Recording).withoutIndex =
          { r with markerWritten := false }.withoutIndex := by
        simp only [Recording.withoutIndex, howner, hbytes, hcontrol, houtcome, ← h.written,
          ← h.offset, ← h.control, ← h.closed, ← h.clean]
      refine ⟨_, by rw [hopen], hsame, ?_⟩
      intro hmarker calls
      have hr : { r with markerWritten := false } = r := by
        rw [← hmarker]
      rw [hr] at hsame
      have h₁ := Recording.performs_withoutIndex (c := c) calls r
      rw [← hsame, Recording.performs_withoutIndex] at h₁
      exact Prod.mk.inj h₁
  final := Recording.perform_sealed
  control := by rwa [← h.control]

theorem LogSession.Holds.trace (h : session.Holds c kept frames) :
    Records (readOwnerFrame c) 0 session.files.owner frames ∧ Contiguous 0 frames ∧
      SealedLast frames ∧ (kept → Listed c session.files.index frames) := by
  cases session with
  | opened r => exact ⟨h.1.records, h.1.contiguous, h.1.sealedLast, h.2.1⟩
  | closed files => exact ⟨h.1, h.2.1, h.2.2.1, h.2.2.2.1⟩

theorem LogSession.Holds.ownerHolds (hc : c.RoundTrips)
    (h : session.Holds c kept frames) : OwnerHolds c session.files frames kept := by
  obtain ⟨hr, hcont, hs, hl⟩ := h.trace
  refine ⟨hr.trace, decompress_ownerTrace hc hr.trace, ?_, scanOwner_accepts hr.trace hcont hs⟩
  intro hwhy start stop hvalid
  obtain ⟨hrange, -⟩ := validateRange_ok.mp hvalid
  rw [readExecutionLogRangeBytes, hvalid, ← window_zero]
  obtain hk | hd := hwhy
  · refine readRangeBlocking_ok (Listed.leadsTo hc hr.trace) ?_ hr.trace hcont hrange
    intro text htext
    rw [← Option.mem_def.mp htext]
    exact hl hk
  · exact readRangeBlocking_ok (hd.leadsTo hr.trace) (fun _ _ => trivial) hr.trace hcont hrange

theorem LogSession.fresh_holds (c : Codec) (reserve : Nat) (hasIndex : Bool)
    (hkept : kept → index = none) : (fresh c reserve hasIndex index).Holds c kept [] := by
  have hl : kept → Listed c index [] := by
    intro hk text htext
    rw [hkept hk] at htext
    cases htext
  have hs : SealedLast [] := by
    intro f hf
    cases hf
  exact LogSession.holds_open .nil trivial hs (Nat.zero_le _) hl reserve hasIndex

/-- The owner decompresses to what the calls have recorded, every range of it reads back as that
slice, and the scan, when the legacy rows it holds are complete, takes up where the writer stands; a
refused log is one whose rows are not complete. Sealed logs take nothing more, and the control bytes
stay within their reserve. -/
structure RoundTrip (c : Codec) (kept : Prop)
    (ran : List (LogCall × Except LogError LogAppend) × LogSession)
    (groups : List (List DecodedFrame)) : Prop where
  recorded : List.Forall₂ (fun entry group => Recorded c entry.1 entry.2 group) ran.1 groups
  holds : OwnerHolds c ran.2.files groups.flatten kept
  resumes : ∀ r, ran.2 = .opened r → Resumes c r groups.flatten
  refused : ∀ files, ran.2 = .closed files →
    rowsComplete none 0 (legacyRows groups.flatten) = false

/-- Whatever calls are made, with the log opened again in between. -/
theorem log_round_trip (c : Codec) (hc : c.RoundTrips) (reserve : Nat) (hasIndex : Bool)
    (index : Option Bytes) (steps : List LogStep) (hfaultless : ∀ step ∈ steps, step.faultless)
    (hsize : (steps.map (LogStep.size c)).sum ≤ maxU64) :
    ∃ groups, RoundTrip c (index = none ∧ ∀ step ∈ steps, step.keepsSidecar)
      ((LogSession.fresh c reserve hasIndex index).run c steps) groups := by
  have hfresh : (LogSession.fresh c reserve hasIndex index).Holds c
      (index = none ∧ ∀ step ∈ steps, step.keepsSidecar) [] :=
    LogSession.fresh_holds c reserve hasIndex And.left
  obtain ⟨groups, hrec, hrun⟩ :=
    hfresh.run hc steps hfaultless And.right (by simpa using hsize)
  rw [List.nil_append] at hrun
  have howner := hrun.ownerHolds hc
  refine ⟨groups, hrec, howner, ?_, ?_⟩
  · intro r hr
    rw [hr] at hrun
    exact hrun.1.resumes hrun.2.2
  · intro files hfiles
    rw [hfiles] at hrun howner
    rw [← Bool.not_eq_true, ← howner.scanned]
    rintro ⟨summary, hscan⟩
    exact hrun.2.2.2.2 summary hscan

namespace Sample

def storage : Storage := ⟨some (2 ^ 30), 1, []⟩

def row (bytes : Nat) : LegacySqlRow := ⟨7, "2025", 2, bytes⟩

/-- A line, a whole legacy row, a control line and the seal, with the log opened again twice. -/
def steps : List LogStep :=
  [.perform (.appendJsonlLine [97, 98] storage storage),
    .perform (.appendLegacyBytes [99, 100] (some (row 2)) storage),
    .reopen true .kept,
    .perform (.appendControlLine [101] storage),
    .reopen true (.replaced none),
    .perform (.finish .complete storage)]

def cutRow : LogCall := .appendLegacyBytes [99, 100] (some (row 3)) storage

end Sample

theorem log_round_trip_sample :
    ∃ groups, RoundTrip storedCodec
      ((none : Option Bytes) = none ∧ ∀ step ∈ Sample.steps, step.keepsSidecar)
      ((LogSession.fresh storedCodec 0 true none).run storedCodec Sample.steps) groups := by
  refine log_round_trip storedCodec storedCodec_roundTrips 0 true none Sample.steps ?_
    (by decide +kernel)
  intro step hstep
  simp only [Sample.steps, List.mem_cons, List.not_mem_nil, or_false] at hstep
  obtain rfl | rfl | rfl | rfl | rfl | rfl := hstep
  all_goals simp [LogStep.faultless, LogCall.faultless, Sample.storage]

/-- The writer has recorded both bytes, but its log cannot be opened again. -/
theorem cut_row_refused :
    ((LogSession.fresh storedCodec 0 true none).run storedCodec [.perform Sample.cutRow]).1 =
        [(Sample.cutRow, .ok .written)] ∧
      scanOwner storedCodec ((LogSession.fresh storedCodec 0 true none).run storedCodec
        [.perform Sample.cutRow]).2.files.owner = .error .incompleteLegacySqlRow ∧
      ((LogSession.fresh storedCodec 0 true none).run storedCodec
        [.perform Sample.cutRow, .reopen true .kept]).2 =
          .closed ((LogSession.fresh storedCodec 0 true none).run storedCodec
            [.perform Sample.cutRow]).2.files := by
  decide +kernel

end Cdesktop.ExecutionLog
