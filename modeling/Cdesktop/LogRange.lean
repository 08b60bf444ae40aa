import Cdesktop.LogReader

namespace Cdesktop.ExecutionLog
open RecordStream
set_option autoImplicit true

/-- Compressed bytes with a provenance frame behind them are decoded only where a frame of the owner
begins. The metadata inside a provenance frame is compressed too, but no other such frame follows. -/
def DecodesAtFrames (c : Codec) (owner : Bytes) : Prop :=
  ∀ frames, OwnerTrace c ⟨0, owner⟩ frames → ∀ p bytes used,
    c.singleFrame (owner.drop p) = some (bytes, used) → bytes ≠ [] →
      fromLeBytes ((owner.drop (p + used)).take 4) = zstdSkippableFrameMagic →
        ∃ f ∈ frames, f.locator.compressedStart = p

theorem Contiguous.bytes_eq (h : Contiguous offset frames) (hm : f ∈ frames) :
    offset ≤ f.locator.start ∧ f.locator.stop = f.locator.start + f.bytes.length ∧
      f.locator.stop ≤ offset + (content frames).length ∧
      ((content frames).drop (f.locator.start - offset)).take f.bytes.length = f.bytes := by
  induction frames generalizing offset with
  | nil => cases hm
  | cons g frames ih =>
    obtain ⟨hstart, hstop, hnext⟩ := h
    rw [content_cons, List.length_append]
    cases hm with
    | head =>
      refine ⟨by omega, by omega, by omega, ?_⟩
      rw [hstart, Nat.sub_self, List.drop_zero, List.take_left]
    | tail _ hm =>
      obtain ⟨hle, hlen, hbound, hbytes⟩ := ih hnext hm
      refine ⟨by omega, hlen, by omega, ?_⟩
      have hoff : f.locator.start - offset =
          g.bytes.length + (f.locator.start - g.locator.stop) := by omega
      rw [hoff, List.drop_append, List.drop_of_length_le (by omega)]
      simpa using hbytes

/-- The places a reader is led to hold frames of the owner, or empty ones, as long as the rest of the
index is of the same kind. -/
def LeadsTo (c : Codec) (owner : Bytes) (frames : List DecodedFrame) (kind : Bytes → Prop) : Prop :=
  ∀ index line rest, kind index → readIndexLine index = (line, rest) → line ≠ [] →
    line.length ≤ maxFrameIndexLineBytes → ∀ frame, c.frameFromJson line = some frame →
      frame.compressedStart < frame.compressedStop → kind rest ∧
        ∀ f t, readOwnerFrame c (Cursor.seek owner frame.compressedStart) = .ok (f, t) →
          f ∈ frames ∨ f.bytes = []

theorem DecodesAtFrames.leadsTo (hd : DecodesAtFrames c owner)
    (ht : OwnerTrace c ⟨0, owner⟩ frames) : LeadsTo c owner frames fun _ => True := by
  intro index line rest _ _ _ _ frame _ _
  refine ⟨trivial, ?_⟩
  intro f t hr
  by_cases hne : f.bytes = []
  · exact Or.inr hne
  left
  obtain ⟨used, size, hf⟩ := readOwnerFrame_ok.mp hr
  have hmagic := hf.magic
  rw [Cursor.seek, List.drop_drop] at hmagic
  obtain ⟨g, hg, hp⟩ := hd frames ht _ f.bytes used hf.decoded hne hmagic
  obtain ⟨q, u, hq⟩ := Trace.read_at (readOwnerFrame_advancing c) (p := 0) ht hg
  have hqp : q = frame.compressedStart := by
    rw [← hp, readOwnerFrame_position hq]
    rfl
  rw [hqp, hr] at hq
  obtain ⟨rfl, -⟩ := Prod.mk.inj (Except.ok.inj hq)
  exact hg

theorem Contiguous.part (hc : Contiguous 0 frames) (hf : f ∈ frames ∨ f.bytes = [])
    (hstart : f.locator.start ≤ a) (hab : a - f.locator.start ≤ b - f.locator.start)
    (hb : b - f.locator.start ≤ f.bytes.length) (hbs : f.locator.start ≤ b) :
    (f.bytes.drop (a - f.locator.start)).take (b - f.locator.start - (a - f.locator.start)) =
      window 0 (content frames) a b := by
  rw [window_zero]
  cases hf with
  | inl hm =>
    obtain ⟨-, -, -, hbytes⟩ := hc.bytes_eq hm
    rw [Nat.sub_zero] at hbytes
    conv_lhs => rw [← hbytes]
    rw [List.drop_take, List.drop_drop, List.take_take]
    congr 1
    · omega
    · congr 1
      omega
  | inr hempty =>
    rw [hempty, List.length_nil] at hb
    have hzero : b - a = 0 := by omega
    rw [hempty, hzero, List.drop_nil, List.take_nil, List.take_zero]

theorem readIndexedFrames_ok (hl : LeadsTo c owner frames kind) (hk : kind index)
    (hc : Contiguous 0 frames) (hcovered : covered ≤ stop)
    (hprevious : covered < stop → previousStop ≤ covered) (hstart : start ≤ covered)
    (h : readIndexedFrames c owner start stop fuel index previousStop previousCompressedStop
      covered output = .ok result) :
    result = output ++ window 0 (content frames) covered stop := by
  induction fuel generalizing index previousStop previousCompressedStop covered output with
  | zero =>
    unfold readIndexedFrames at h
    split at h
    · cases h
    · cases h
      rw [window_zero, Nat.sub_eq_zero_of_le (by omega), List.take_zero, List.append_nil]
  | succ fuel ih =>
    unfold readIndexedFrames at h
    split at h
    · rename_i hlt
      simp only [bind_eq_ok, require_eq_ok, expect_eq_ok] at h
      obtain ⟨-, hne, -, ⟨hline, -⟩, frame, hparse, -, ⟨hfs, -, hlead, hle, -⟩, h⟩ := h
      obtain ⟨hk', hfound⟩ := hl index _ _ hk rfl hne hline frame hparse hlead
      split at h
      · exact ih hk' hcovered (fun _ => by omega) hstart h
      · simp only [bind_eq_ok, require_eq_ok, expect_eq_ok, Prod.exists, getRange_eq_some] at h
        obtain ⟨f, t, hr, -, ⟨hs, he, -, -⟩, part, ⟨hab, hb, rfl⟩, h⟩ := h
        have hp := hprevious hlt
        have hpart := hc.part (hfound f t hr) (a := covered) (b := min stop frame.stop)
          (by omega) (by omega) (by omega) (by omega)
        rw [hs] at hpart
        have hnext := ih hk' (by omega) (fun _ => by omega) (by omega) h
        rw [hnext, hpart, List.append_assoc, ← window_split _ (by omega) (by omega)]
    · cases h
      rw [window_zero, Nat.sub_eq_zero_of_le (by omega), List.take_zero, List.append_nil]

theorem readRangeByStreamingDecode_ok (ht : OwnerTrace c ⟨0, owner⟩ frames)
    (hc : Contiguous 0 frames) (hrange : start ≤ stop) :
    readRangeByStreamingDecode c owner start stop =
      .ok (window 0 (content frames) start stop) :=
  streamFrames_ok (Nat.le_refl owner.length) ht hc hrange []

theorem readRangeBlocking_ok (hl : LeadsTo c owner frames kind)
    (hk : ∀ content ∈ index, kind content) (ht : OwnerTrace c ⟨0, owner⟩ frames)
    (hc : Contiguous 0 frames) (hrange : start ≤ stop) :
    readRangeBlocking c owner index start stop = .ok (window 0 (content frames) start stop) := by
  unfold readRangeBlocking
  split
  · rename_i output h
    simp only [readRangeFromIndex, bind_eq_ok, expect_eq_ok] at h
    obtain ⟨index, hindex, h⟩ := h
    rw [readIndexedFrames_ok hl (hk index hindex) hc hrange (fun _ => Nat.zero_le _)
      (Nat.le_refl _) h]
    rfl
  · exact readRangeByStreamingDecode_ok ht hc hrange

theorem validateRange_ok : validateRange start stop = .ok u ↔
    start ≤ stop ∧ stop - start ≤ maxExecutionLogRangeBytes := by
  simp only [validateRange, bind_eq_ok, require_eq_ok, exists_const]

/-- Whatever the sidecar holds, a range is read as the plain decoding from the start reads it, and
never longer than asked for. -/
theorem indexed_range (c : Codec) (owner : Bytes) (summary : OwnerSummary)
    (hvalid : scanOwner c owner = .ok summary) (hframes : DecodesAtFrames c owner)
    (index : Option Bytes) (start stop : Nat) :
    (readExecutionLogRangeBytes c owner index start stop = do
      validateRange start stop
      readRangeByStreamingDecode c owner start stop) ∧
    ∀ output, readExecutionLogRangeBytes c owner index start stop = .ok output →
      output.length ≤ stop - start := by
  obtain ⟨frames, ht, hc⟩ := scanOwner_contiguous hvalid
  cases hv : validateRange start stop with
  | error e =>
    simp only [readExecutionLogRangeBytes, hv]
    refine ⟨rfl, ?_⟩
    intro output h
    cases h
  | ok u =>
    obtain ⟨hrange, -⟩ := validateRange_ok.mp hv
    have hblocking : readRangeBlocking c owner index start stop = _ :=
      readRangeBlocking_ok (hframes.leadsTo ht) (fun _ _ => trivial) ht hc hrange
    have hstream := readRangeByStreamingDecode_ok ht hc hrange
    simp only [readExecutionLogRangeBytes, hv, bind, Except.bind, hblocking, hstream]
    refine ⟨trivial, ?_⟩
    intro output h
    cases h
    exact window_length _ _ _ _

namespace Sample

def metadata (order : Nat) : CapturedLogMetadata := ⟨some 1, order, false, none, none⟩

def owner : Bytes :=
  capturedRecord storedCodec [97, 98] (metadata 0) ++ capturedRecord storedCodec [99] (metadata 2)

/-- A sidecar whose first locator is right and whose second reaches too far. -/
def index : Bytes :=
  storedCodec.frameToJson ⟨0, 2, 0, 58, some 1⟩ ++ [newline] ++
    storedCodec.frameToJson ⟨2, 4, 58, 120, some 1⟩ ++ [newline]

theorem owner_records : Records (readOwnerFrame storedCodec) 0 owner
    [writtenFrame 0 [97, 98] (metadata 0) 58, writtenFrame 58 [99] (metadata 2) 62] := by
  have h := reads_record (m := metadata 0) storedCodec_roundTrips 0
    (by decide : ([97, 98] : Bytes).length ≤ maxFrameUncompressedBytes)
    (by decide +kernel) (by decide +kernel) (by decide +kernel)
  have h' := reads_record (m := metadata 2) storedCodec_roundTrips 58
    (by decide : ([99] : Bytes).length ≤ maxFrameUncompressedBytes)
    (by decide +kernel) (by decide +kernel) (by decide +kernel)
  have hlen : (capturedRecord storedCodec [97, 98] (metadata 0)).length = 58 := by decide +kernel
  have hlen' : (capturedRecord storedCodec [99] (metadata 2)).length = 62 := by decide +kernel
  rw [hlen] at h
  rw [hlen'] at h'
  have hrest := Records.cons h' Records.nil
  rw [List.append_nil] at hrest
  apply Records.cons h
  rwa [hlen]

theorem owner_decodes : DecodesAtFrames storedCodec owner := by
  intro frames ht p bytes used h hne hmagic
  have hcheck : ∀ p < owner.length, (storedFrame (owner.drop p)).all fun read =>
      read.1 = [] ∨ fromLeBytes ((owner.drop (p + read.2)).take 4) ≠ zstdSkippableFrameMagic ∨
        p = 0 ∨ p = 58 := by
    decide +kernel
  have hp : p < owner.length := by
    by_contra hp
    rw [List.drop_of_length_le (by omega)] at h
    cases h
  have hc := hcheck p hp
  rw [show storedFrame (owner.drop p) = some (bytes, used) from h] at hc
  have hstart : p = 0 ∨ p = 58 := by simpa [hne, hmagic] using hc
  obtain rfl := owner_records.trace.unique ht
  cases hstart with
  | inl h0 => exact ⟨_, List.mem_cons_self, h0.symm⟩
  | inr h58 => exact ⟨_, List.mem_cons_of_mem _ List.mem_cons_self, h58.symm⟩

end Sample

theorem indexed_range_sample :
    (readExecutionLogRangeBytes storedCodec Sample.owner (some Sample.index) 1 3 = do
      validateRange 1 3
      readRangeByStreamingDecode storedCodec Sample.owner 1 3) ∧
    ∀ output, readExecutionLogRangeBytes storedCodec Sample.owner (some Sample.index) 1 3 =
      .ok output → output.length ≤ 3 - 1 :=
  indexed_range storedCodec Sample.owner ⟨3, none, false, none, 0⟩ (by decide +kernel)
    Sample.owner_decodes (some Sample.index) 1 3

end Cdesktop.ExecutionLog
