import Cdesktop.LogWriter

namespace Cdesktop.ExecutionLog
open RecordStream
set_option autoImplicit true

structure Accounts (c : Codec) (r : Recording) (frames : List DecodedFrame) : Prop where
  records : Records (readOwnerFrame c) 0 r.owner frames
  contiguous : Contiguous 0 frames
  sealedLast : SealedLast frames
  written : r.written = min r.owner.length maxU64
  offset : r.uncompressedOffset = (content frames).length
  control : r.controlBytes = (controlContent frames).length
  closed : r.sealed = (sealOf frames).isSome
  clean : r.poisoned = false

theorem Contiguous.snoc (h : Contiguous offset frames)
    (hstart : f.locator.start = offset + (content frames).length)
    (hstop : f.locator.stop = f.locator.start + f.bytes.length) :
    Contiguous offset (frames ++ [f]) := by
  induction frames generalizing offset with
  | nil =>
    rw [content_nil, List.length_nil, Nat.add_zero] at hstart
    exact ⟨hstart, by rw [hstop, hstart], trivial⟩
  | cons g frames ih =>
    obtain ⟨hg, hgs, hnext⟩ := h
    refine ⟨hg, hgs, ih hnext ?_⟩
    rw [hstart, content_cons, List.length_append, hgs]
    omega

@[simp] theorem sealOf_snoc (frames : List DecodedFrame) (f : DecodedFrame) :
    sealOf (frames ++ [f]) = f.metadata.outcome := by
  simp [sealOf]

theorem SealedLast.all (h : SealedLast frames) (hopen : sealOf frames = none) :
    ∀ f ∈ frames, f.metadata.outcome = none := by
  intro f hf
  obtain rfl | ⟨frames, g, rfl⟩ := frames.eq_nil_or_concat
  · cases hf
  rw [List.concat_eq_append] at *
  rw [sealOf_snoc] at hopen
  rw [SealedLast, List.dropLast_concat] at h
  rcases List.mem_append.mp hf with hf | hf
  · exact h f hf
  · rw [List.mem_singleton.mp hf, hopen]

theorem SealedLast.snoc (h : SealedLast frames) (hopen : sealOf frames = none)
    (f : DecodedFrame) : SealedLast (frames ++ [f]) := by
  rw [SealedLast, List.dropLast_concat]
  exact h.all hopen

theorem controlContent_snoc (frames : List DecodedFrame) (f : DecodedFrame) :
    controlContent (frames ++ [f]) =
      controlContent frames ++ if f.metadata.control then f.bytes else [] := by
  unfold controlContent
  rw [List.filter_append, content_append]
  cases hf : f.metadata.control <;> simp [hf]

theorem controlContent_length (frames : List DecodedFrame) :
    (controlContent frames).length ≤ (content frames).length := by
  induction frames with
  | nil => exact Nat.le_refl _
  | cons f frames ih =>
    unfold controlContent at ih ⊢
    cases hf : f.metadata.control with
    | true => simpa [hf] using ih
    | false =>
      rw [List.filter_cons_of_neg (by simp [hf]), content_cons, List.length_append]
      omega

theorem Recording.appendIndex_rest (io : SegmentIo) (line : Bytes) (r : Recording) :
    ∃ hasIndex index, r.appendIndex io line = { r with hasIndex, index } := by
  unfold appendIndex
  split
  · split
    · exact ⟨r.hasIndex, _, rfl⟩
    · exact ⟨false, _, rfl⟩
  · exact ⟨r.hasIndex, r.index, rfl⟩

theorem Accounts.withIndex (h : Accounts c r frames) (hasIndex : Bool) (index : Option Bytes) :
    Accounts c { r with hasIndex, index } frames :=
  ⟨h.records, h.contiguous, h.sealedLast, h.written, h.offset, h.control, h.closed, h.clean⟩

theorem saturatingAdd_min (a b : Nat) : saturatingAdd (min a maxU64) b = min (a + b) maxU64 := by
  unfold saturatingAdd
  omega

def LogFrame.clamp (frame : LogFrame) : LogFrame :=
  { frame with
    compressedStart := min frame.compressedStart maxU64
    compressedStop := min frame.compressedStop maxU64 }

def indexLine (c : Codec) (f : DecodedFrame) : Bytes :=
  c.frameToJson f.locator.clamp ++ [newline]

def Listed (c : Codec) (index : Option Bytes) (frames : List DecodedFrame) : Prop :=
  ∀ text ∈ index, ∃ listed, listed ⊆ frames ∧ text = listed.flatMap (indexLine c)

theorem Listed.mono (h : Listed c index frames) (hsub : frames ⊆ frames') :
    Listed c index frames' := by
  intro text htext
  obtain ⟨listed, hl, rfl⟩ := h text htext
  exact ⟨listed, List.Subset.trans hl hsub, rfl⟩

variable {r : Recording} {control : Bool}

theorem Listed.appendIndex (h : Listed c r.index frames) (hio : io.indexed = none)
    (f : DecodedFrame) : Listed c (r.appendIndex io (indexLine c f)).index (frames ++ [f]) := by
  have hsub : frames ⊆ frames ++ [f] := List.subset_append_left _ _
  unfold Recording.appendIndex
  split
  · rw [hio]
    intro text htext
    obtain rfl : r.index.getD [] ++ indexLine c f = text := by simpa using htext
    cases hindex : r.index with
    | none => exact ⟨[f], by simp, by simp⟩
    | some old =>
      obtain ⟨listed, hl, rfl⟩ := h old hindex
      refine ⟨listed ++ [f], ?_, by simp⟩
      exact List.append_subset.mpr ⟨List.Subset.trans hl hsub, List.subset_append_right _ _⟩
  · exact h.mono hsub

structure SameSetup (r r' : Recording) : Prop where
  sealed : r'.sealed = r.sealed
  marker : r'.markerWritten = r.markerWritten
  freeDiskReserve : r'.freeDiskReserveBytes = r.freeDiskReserveBytes

theorem SameSetup.refl (r : Recording) : SameSetup r r := ⟨rfl, rfl, rfl⟩

theorem SameSetup.trans (h : SameSetup r r') (h' : SameSetup r' r'') : SameSetup r r'' :=
  ⟨h'.sealed.trans h.sealed, h'.marker.trans h.marker,
    h'.freeDiskReserve.trans h.freeDiskReserve⟩

theorem Accounts.publish (hc : c.RoundTrips) (h : Accounts c r frames) (hopen : r.sealed = false)
    (hm : m = ⟨capturedAt, r.uncompressedOffset, control, outcome, row⟩)
    (hfits : MetadataFits c m) (hinput : input.length ≤ maxFrameUncompressedBytes)
    (hbytes : r.uncompressedOffset + input.length ≤ maxU64) :
    Accounts c { r.publish input (capturedRecord c input m) control
        (r.locator input (capturedRecord c input m) capturedAt) with sealed := outcome.isSome }
      (frames ++ [writtenFrame r.owner.length input m (capturedRecord c input m).length]) := by
  have hsealOf : sealOf frames = none := by
    have := h.closed
    rw [hopen] at this
    exact Option.isNone_iff_eq_none.mp (by simpa using this.symm)
  have hread := reads_record (m := m) hc r.owner.length hinput hfits.1 hfits.2
    (by rw [hm]; exact hbytes)
  have horder : m.captureOrder = (content frames).length := by rw [hm, ← h.offset]
  have hadd : saturatingAdd r.controlBytes input.length = r.controlBytes + input.length := by
    have hle := controlContent_length frames
    rw [← h.control, ← h.offset] at hle
    unfold saturatingAdd
    omega
  generalize hrec : capturedRecord c input m = record at hread ⊢
  exact
    { records := h.records.snoc (by rwa [Nat.zero_add])
      contiguous := h.contiguous.snoc (by rw [Nat.zero_add]; exact horder) rfl
      sealedLast := h.sealedLast.snoc hsealOf _
      written := by
        show saturatingAdd r.written record.length = _
        rw [h.written, saturatingAdd_min]
        simp [Recording.publish]
      offset := by
        show saturatingAdd r.uncompressedOffset input.length = _
        rw [content_append, List.length_append, ← h.offset]
        show min _ _ = r.uncompressedOffset + (content [writtenFrame _ input m _]).length
        simp only [content_cons, content_nil, List.append_nil, writtenFrame]
        omega
      control := by
        rw [controlContent_snoc, List.length_append, ← h.control]
        show (if control = true then saturatingAdd r.controlBytes input.length
          else r.controlBytes) = r.controlBytes + (if m.control = true then input else []).length
        rw [hm]
        cases control with
        | true => simpa using hadd
        | false => rfl
      closed := by
        rw [sealOf_snoc]
        show outcome.isSome = m.outcome.isSome
        rw [hm]
      clean := rfl }

theorem Accounts.writeSegment (hc : c.RoundTrips)
    (h : Accounts c r frames) (hopen : r.sealed = false)
    (hm : m = ⟨capturedAt, r.uncompressedOffset, control, outcome, row⟩)
    (hinput : input.length ≤ maxFrameUncompressedBytes)
    (hbytes : r.uncompressedOffset + input.length ≤ maxU64)
    (hw : r.writeSegment c io input capturedAt control outcome row = (result, r')) :
    ((∃ e, result = .error e) ∧ r' = r ∧ (io.encoded = false ∨ ¬ MetadataFits c m)) ∨
      (result = .error .storageFailed ∧ ∃ landed, io.stored = some landed ∧
        r' = r.tear ((capturedRecord c input m).take landed)) ∨
      (result = .ok () ∧ SameSetup r r' ∧ ∃ f, f.bytes = input ∧ f.metadata = m ∧
        Accounts c { r' with sealed := outcome.isSome } (frames ++ [f]) ∧
          (io.indexed = none → Listed c r.index frames → Listed c r'.index (frames ++ [f]))) := by
  obtain hrefused | htorn | ⟨hok, -, hfits, hr'⟩ := Recording.writeSegment_cases hm hw
  · exact Or.inl hrefused
  · exact Or.inr (Or.inl htorn)
  refine Or.inr (Or.inr ⟨hok, ?_⟩)
  have hf := h.publish hc hopen hm hfits hinput hbytes
  generalize hfdef : writtenFrame r.owner.length input m (capturedRecord c input m).length = f at hf
  have hline : c.frameToJson (r.locator input (capturedRecord c input m) capturedAt) ++ [newline] =
      indexLine c f := by
    have hstop : saturatingAdd r.uncompressedOffset input.length =
        r.uncompressedOffset + input.length := Nat.min_eq_left hbytes
    have hcs := saturatingAdd_min r.owner.length (capturedRecord c input m).length
    rw [← h.written] at hcs
    rw [indexLine, ← hfdef, hm]
    congr 2
    simp only [Recording.locator, LogFrame.clamp, writtenFrame, hstop, ← h.written, ← hm, hcs]
  rw [hline] at hr'
  obtain ⟨hasIndex, index, hrest⟩ := Recording.appendIndex_rest io (indexLine c f)
    (r.publish input (capturedRecord c input m) control
      (r.locator input (capturedRecord c input m) capturedAt))
  refine ⟨?_, f, by rw [← hfdef]; rfl, by rw [← hfdef]; rfl, ?_, ?_⟩
  · rw [hr', hrest]
    exact ⟨rfl, rfl, rfl⟩
  · have := hf.withIndex hasIndex index
    rw [hr', hrest]
    exact this
  · intro hio hlisted
    rw [hr']
    exact Listed.appendIndex (r := r.publish input (capturedRecord c input m) control
      (r.locator input (capturedRecord c input m) capturedAt)) hlisted hio f

structure Wrote (c : Codec) (r : Recording) (frames : List DecodedFrame) (control : Bool)
    (row : Option LegacySqlRow) (inputs : List Bytes) (n : Nat) (new : List DecodedFrame)
    (r' : Recording) : Prop where
  bytes : new.map DecodedFrame.bytes = inputs.take n
  marks : ∀ f ∈ new, f.metadata.control = control ∧ f.metadata.outcome = none ∧
    f.metadata.legacySqlRow = row
  accounts : Accounts c r' (frames ++ new)
  setup : SameSetup r r'

theorem Wrote.content (h : Wrote c r frames control row inputs n new r') :
    content new = (inputs.take n).flatten := by
  rw [← h.bytes]
  rfl

theorem Wrote.zero (h : Accounts c r frames) (row : Option LegacySqlRow)
    (inputs : List Bytes) : Wrote c r frames control row inputs 0 [] r where
  bytes := rfl
  marks := fun f hf => by cases hf
  accounts := by rwa [List.append_nil]
  setup := SameSetup.refl r

theorem Wrote.cons (h : Wrote c r₁ (frames ++ [f]) control row inputs n new r')
    (hs : SameSetup r r₁) (hf : f.metadata.control = control ∧ f.metadata.outcome = none ∧
      f.metadata.legacySqlRow = row) :
    Wrote c r frames control row (f.bytes :: inputs) (n + 1) (f :: new) r' where
  bytes := by rw [List.map_cons, h.bytes, List.take_succ_cons]
  marks := by
    intro g hg
    cases hg with
    | head => exact hf
    | tail _ hg => exact h.marks g hg
  accounts := by
    have := h.accounts
    rwa [List.append_assoc] at this
  setup := hs.trans h.setup

inductive WriteEnd (c : Codec) (ios : List SegmentIo) (inputs : List Bytes) (n : Nat)
    (r₁ : Recording) : Served Unit → Prop
  | written : n = inputs.length → WriteEnd c ios inputs n r₁ (.ok (), r₁)
  | refused : n < inputs.length → ((∃ io ∈ ios, io.encoded = false) ∨ ∃ m, ¬ MetadataFits c m) →
      WriteEnd c ios inputs n r₁ (.error e, r₁)
  | torn : inputs[n]? = some input → io ∈ ios → io.stored = some landed →
      WriteEnd c ios inputs n r₁
        (.error .storageFailed, r₁.tear ((capturedRecord c input m).take landed))

theorem WriteEnd.cons (h : WriteEnd c ios.tail inputs n r₁ x) :
    WriteEnd c ios (input :: inputs) (n + 1) r₁ x := by
  cases h with
  | written hn => exact .written (by rw [hn]; rfl)
  | refused hn hwhy =>
    refine .refused (by simpa using hn) (hwhy.imp_left ?_)
    rintro ⟨io, hio, he⟩
    exact ⟨io, List.mem_of_mem_tail hio, he⟩
  | torn hn hio hl => exact .torn (by simpa using hn) (List.mem_of_mem_tail hio) hl

theorem headD_mem {ios : List SegmentIo} (h : ios.headD .sound ≠ .sound) :
    ios.headD .sound ∈ ios := by
  cases ios with
  | nil => exact absurd rfl h
  | cons io ios => exact List.mem_cons_self

theorem Recording.sealed_eta (h : r.sealed = b) : { r with sealed := b } = r := by
  subst h
  rfl

theorem Accounts.writeSegments (hc : c.RoundTrips)
    (h : Accounts c r frames) (ios : List SegmentIo) (capturedAt : Option Time)
    (hopen : r.sealed = false)
    (hinputs : ∀ input ∈ inputs, input.length ≤ maxFrameUncompressedBytes)
    (hbytes : r.uncompressedOffset + inputs.flatten.length ≤ maxU64) :
    ∃ n new r₁, Wrote c r frames control row inputs n new r₁ ∧
      WriteEnd c ios inputs n r₁ (r.writeSegments c capturedAt control row ios inputs) ∧
        ((∀ io ∈ ios, io.indexed = none) → Listed c r.index frames →
          Listed c r₁.index (frames ++ new)) := by
  induction inputs generalizing r frames ios with
  | nil =>
    refine ⟨0, [], r, Wrote.zero h row [], .written rfl, ?_⟩
    intro _ hl
    rwa [List.append_nil]
  | cons input inputs ih =>
    rw [List.flatten_cons, List.length_append] at hbytes
    rw [Recording.writeSegments]
    generalize hw : r.writeSegment c (ios.headD .sound) input capturedAt control none row = x
    obtain ⟨result, r₂⟩ := x
    have hlisted₀ : (∀ io ∈ ios, io.indexed = none) → Listed c r.index frames →
        Listed c r.index (frames ++ []) := by
      intro _ hl
      rwa [List.append_nil]
    obtain ⟨⟨e, rfl⟩, rfl, hwhy⟩ | ⟨rfl, landed, hstored, rfl⟩ | ⟨rfl, hsetup, f, rfl, hfm, hf, hfl⟩ :=
      h.writeSegment hc hopen rfl (hinputs input List.mem_cons_self) (by omega) hw
    · refine ⟨0, [], r₂, Wrote.zero h row _, .refused (Nat.succ_pos _) ?_, hlisted₀⟩
      refine hwhy.imp (fun hio => ⟨_, headD_mem ?_, hio⟩) (fun hm => ⟨_, hm⟩)
      intro hsound
      rw [hsound] at hio
      cases hio
    · refine ⟨0, [], r, Wrote.zero h row _, .torn rfl (headD_mem ?_) hstored, hlisted₀⟩
      intro hsound
      rw [hsound] at hstored
      cases hstored
    · have hopen₂ : r₂.sealed = false := by rw [hsetup.sealed, hopen]
      rw [Option.isSome_none, Recording.sealed_eta hopen₂] at hf
      have hoffset := hf.offset
      rw [content_append, List.length_append, ← h.offset, content_cons, content_nil,
        List.append_nil] at hoffset
      obtain ⟨n, new, r₃, hwrote, hend, hlisted⟩ := ih hf ios.tail hopen₂
        (fun input hin => hinputs input (List.mem_cons_of_mem _ hin)) (by omega)
      refine ⟨n + 1, f :: new, r₃, hwrote.cons hsetup ?_, hend.cons, ?_⟩
      · rw [hfm]
        exact ⟨rfl, rfl, rfl⟩
      · intro hios hl
        have := hlisted (fun io hio => hios io (List.mem_of_mem_tail hio)) (hfl ?_ hl)
        · rwa [List.append_assoc] at this
        · cases ios with
          | nil => rfl
          | cons io ios => exact hios io List.mem_cons_self

inductive AppendEnd (c : Codec) (r : Recording) (frames : List DecodedFrame) (control : Bool)
    (row : Option LegacySqlRow) (ios : List SegmentIo) (inputs : List Bytes) :
    Served LogAppend → List DecodedFrame → Prop
  | declined : answer ≠ .ok .written → AppendEnd c r frames control row ios inputs (answer, r) []
  | wrote : Wrote c r frames control row inputs n new r₁ → WriteEnd c ios inputs n r₁ x →
      ((∀ io ∈ ios, io.indexed = none) → Listed c r.index frames →
        Listed c r₁.index (frames ++ new)) →
      AppendEnd c r frames control row ios inputs (x.andThen fun _ r => (.ok .written, r)) new

theorem Accounts.writes (hc : c.RoundTrips) (h : Accounts c r frames) (hopen : r.sealed = false)
    (hinputs : ∀ input ∈ inputs, input.length ≤ maxFrameUncompressedBytes)
    (hbytes : r.uncompressedOffset + inputs.flatten.length ≤ maxU64) :
    ∃ new, AppendEnd c r frames control row ios inputs
      ((r.writeSegments c capturedAt control row ios inputs).andThen
        fun _ r => (.ok .written, r)) new := by
  obtain ⟨n, new, r₁, hwrote, hend, hlisted⟩ :=
    h.writeSegments hc ios capturedAt hopen hinputs hbytes
  exact ⟨new, .wrote hwrote hend hlisted⟩

theorem Recording.ensureWritable_cases (r : Recording) :
    (r.ensureWritable = (.ok (), r) ∧ r.sealed = false ∧ r.poisoned = false) ∨
      (r.ensureWritable = (.error .requiresRecovery, r) ∧ (r.sealed = true ∨ r.poisoned = true)) := by
  unfold ensureWritable
  cases hp : r.poisoned <;> cases hs : r.sealed <;> simp

theorem Recording.hasDiskReserve_cases (io : Storage) (n : Nat) (r : Recording) :
    r.hasDiskReserve io n = (.error .spaceUnknown, r) ∨
      ∃ admitted, r.hasDiskReserve io n = (.ok admitted, r) := by
  unfold hasDiskReserve
  cases io.availableSpace with
  | none => exact Or.inl rfl
  | some space => exact Or.inr ⟨_, rfl⟩

theorem Recording.hasControlSpace_cases (io : Storage) (n : Nat) (r : Recording) :
    r.hasControlSpace io n = (.error .spaceUnknown, r) ∨
      ∃ admitted, r.hasControlSpace io n = (.ok admitted, r) := by
  unfold hasControlSpace
  cases io.availableSpace with
  | none => exact Or.inl rfl
  | some space => exact Or.inr ⟨_, rfl⟩

theorem Accounts.appendControlLine (hc : c.RoundTrips) (h : Accounts c r frames)
    (hbytes : r.uncompressedOffset + line.length ≤ maxU64) (io : Storage) :
    ∃ new, AppendEnd c r frames true none io.segments (frameChunks line)
      (r.appendControlLine c line io) new := by
  unfold Recording.appendControlLine
  obtain ⟨hw, hopen, -⟩ | ⟨hw, -⟩ := r.ensureWritable_cases
  · rw [hw]
    simp only [Served.andThen]
    split
    · exact ⟨[], .declined (by simp)⟩
    obtain hspace | ⟨admitted, hspace⟩ := r.hasControlSpace_cases io line.length
    · rw [hspace]
      exact ⟨[], .declined (by simp)⟩
    rw [hspace]
    cases admitted with
    | false => exact ⟨[], .declined (by simp)⟩
    | true =>
      apply h.writes hc hopen (frameChunks_length line)
      rwa [frameChunks_flatten]
  · rw [hw]
    exact ⟨[], .declined (by simp)⟩

theorem Accounts.appendLegacyBytes (hc : c.RoundTrips) (h : Accounts c r frames)
    (hbytes : r.uncompressedOffset + bytes.length ≤ maxU64) (source : Option LegacySqlRow)
    (io : Storage) :
    ∃ new, AppendEnd c r frames false source io.segments
      (if bytes = [] then [[]] else frameChunks bytes) (r.appendLegacyBytes c bytes source io) new := by
  unfold Recording.appendLegacyBytes
  obtain ⟨hw, hopen, -⟩ | ⟨hw, -⟩ := r.ensureWritable_cases
  · rw [hw]
    simp only [Served.andThen]
    obtain hspace | ⟨admitted, hspace⟩ := r.hasDiskReserve_cases io bytes.length
    · rw [hspace]
      exact ⟨[], .declined (by simp)⟩
    rw [hspace]
    cases admitted with
    | false => exact ⟨[], .declined (by simp)⟩
    | true =>
      apply h.writes hc hopen
      · intro input hin
        split at hin
        · rw [List.mem_singleton.mp hin]
          exact Nat.zero_le _
        · exact frameChunks_length bytes input hin
      · split
        · rename_i hnil
          rwa [hnil] at hbytes
        · rwa [frameChunks_flatten]
  · rw [hw]
    exact ⟨[], .declined (by simp)⟩

theorem Accounts.withMarker (h : Accounts c r frames) (markerWritten : Bool) :
    Accounts c { r with markerWritten } frames :=
  { records := h.records
    contiguous := h.contiguous
    sealedLast := h.sealedLast
    written := h.written
    offset := h.offset
    control := h.control
    closed := h.closed
    clean := h.clean }

theorem Accounts.appendJsonlLine (hc : c.RoundTrips) (h : Accounts c r frames)
    (hbytes : r.uncompressedOffset + line.length ≤ maxU64)
    (hmarker : ∀ text ∈ markerLine c, r.uncompressedOffset + text.length ≤ maxU64)
    (io marker : Storage) :
    (∃ new, AppendEnd c r frames false none io.segments (frameChunks line)
      (r.appendJsonlLine c line io marker) new) ∨
    (r.appendJsonlLine c line io marker = (.ok .unavailable, { r with markerWritten := true })) ∨
    ∃ text new x, markerLine c = some text ∧
      AppendEnd c { r with markerWritten := true } frames true none marker.segments
        (frameChunks text) x new ∧
      r.appendJsonlLine c line io marker = x.andThen fun _ r => (.ok .unavailable, r) := by
  unfold Recording.appendJsonlLine
  obtain ⟨hw, hopen, -⟩ | ⟨hw, -⟩ := r.ensureWritable_cases
  · rw [hw]
    obtain hspace | ⟨admitted, hspace⟩ := r.hasDiskReserve_cases io line.length
    · simp only [Served.andThen, hspace]
      exact Or.inl ⟨[], .declined (by simp)⟩
    cases admitted with
    | true =>
      simp only [Served.andThen, hspace]
      left
      apply h.writes hc hopen (frameChunks_length line)
      rwa [frameChunks_flatten]
    | false =>
      simp only [Served.andThen, hspace, Recording.publishUnavailableMarker]
      by_cases hmarked : r.markerWritten = true
      · rw [if_pos hmarked]
        exact Or.inl ⟨[], .declined (by simp)⟩
      rw [if_neg hmarked]
      right
      cases htext : markerLine c with
      | none => exact Or.inl rfl
      | some text =>
        right
        obtain ⟨new, hend⟩ := (h.withMarker true).appendControlLine hc
          (hmarker text htext) marker
        generalize hx : ({ r with markerWritten := true } : Recording).appendControlLine c text
          marker = x at hend ⊢
        obtain ⟨answer, r'⟩ := x
        refine ⟨text, new, _, rfl, hend, ?_⟩
        simp only [Bool.false_eq_true, if_false, hx]
        cases answer <;> rfl
  · rw [hw]
    exact Or.inl ⟨[], .declined (by simp)⟩

inductive FinishEnd (c : Codec) (r : Recording) (frames : List DecodedFrame)
    (outcome : CaptureOutcome) (ios : List SegmentIo) : Served Unit → Prop
  | declined : FinishEnd c r frames outcome ios (.error e, r)
  | closed : f.bytes = [] → f.metadata.outcome = some outcome → f.metadata.control = true →
      f.metadata.legacySqlRow = none → Accounts c r' (frames ++ [f]) → r'.sealed = true →
      r'.freeDiskReserveBytes = r.freeDiskReserveBytes →
      ((∀ io ∈ ios, io.indexed = none) → Listed c r.index frames →
        Listed c r'.index (frames ++ [f])) →
      FinishEnd c r frames outcome ios (.ok (), r')
  | torn : io ∈ ios → io.stored = some landed →
      FinishEnd c r frames outcome ios
        (.error .storageFailed, r.tear ((capturedRecord c [] m).take landed))

theorem Accounts.finish (hc : c.RoundTrips) (h : Accounts c r frames)
    (hbytes : r.uncompressedOffset ≤ maxU64) (outcome : CaptureOutcome) (io : Storage) :
    FinishEnd c r frames outcome io.segments (r.finish c outcome io) := by
  unfold Recording.finish
  obtain ⟨hw, hopen, -⟩ | ⟨hw, -⟩ := r.ensureWritable_cases
  · rw [hw]
    obtain hspace | ⟨admitted, hspace⟩ := r.hasControlSpace_cases io 0
    · simp only [Served.andThen, hspace]
      exact .declined
    simp only [Served.andThen, hspace]
    cases admitted with
    | false => exact .declined
    | true =>
      simp only [if_true]
      generalize hseg : r.writeSegment c (io.segments.headD .sound) [] (some io.now) true
        (some outcome) none = x
      obtain ⟨result, r'⟩ := x
      have hb : r.uncompressedOffset + ([] : Bytes).length ≤ maxU64 := hbytes
      obtain ⟨⟨e, rfl⟩, rfl, -⟩ | ⟨rfl, landed, hstored, rfl⟩ | ⟨rfl, hs, f, hfb, hfm, hf, hfl⟩ :=
        h.writeSegment hc hopen rfl (Nat.zero_le _) hb hseg
      · exact .declined
      · refine .torn (headD_mem ?_) hstored
        intro hsound
        rw [hsound] at hstored
        cases hstored
      · show FinishEnd c r frames outcome io.segments (.ok (), { r' with sealed := true })
        refine .closed hfb (by rw [hfm]) (by rw [hfm]) (by rw [hfm]) hf rfl hs.freeDiskReserve ?_
        intro hios hl
        apply hfl _ hl
        cases hsegs : io.segments with
        | nil => rfl
        | cons s rest => exact hios s (by rw [hsegs]; exact List.mem_cons_self)
  · rw [hw]
    exact .declined

end Cdesktop.ExecutionLog
