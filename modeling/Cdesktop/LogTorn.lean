import Cdesktop.LogRoundTrip

namespace Cdesktop.ExecutionLog
open RecordStream
set_option autoImplicit true

def boundary (frames : List DecodedFrame) : Nat :=
  (frames.getLast?.map fun f => f.locator.compressedStop).getD 0

theorem reads_compressedStop (h : Reads (readOwnerFrame c) p used f) :
    f.locator.compressedStop = p + used.length := by
  have hr := h.read_append []
  obtain ⟨n, size, hf⟩ := readOwnerFrame_ok.mp hr
  exact hf.compressedStop

theorem boundary_eq (h : Records (readOwnerFrame c) 0 x frames) :
    boundary frames = x.length := by
  have hlast : ∀ {p x} {frames : List DecodedFrame}, Records (readOwnerFrame c) p x frames →
      (frames.getLast?.map fun f => f.locator.compressedStop).getD p = p + x.length := by
    intro p x frames h
    induction h with
    | nil => rfl
    | @cons p used f rest frames hr hrest ih =>
      rw [List.length_append, ← Nat.add_assoc, ← ih]
      cases frames with
      | nil => simp [reads_compressedStop hr]
      | cons g frames =>
        rw [List.getLast?_cons_cons]
        obtain ⟨last, hlast⟩ := Option.isSome_iff_exists.mp
          (List.getLast?_isSome.mpr (List.cons_ne_nil g frames))
        rw [hlast]
        rfl
  rw [boundary, hlast h, Nat.zero_add]

theorem Contiguous.take (h : Contiguous offset frames) (k : Nat) :
    Contiguous offset (frames.take k) := by
  induction frames generalizing offset k with
  | nil =>
    rw [List.take_nil]
    trivial
  | cons f frames ih =>
    cases k with
    | zero => trivial
    | succ k => exact ⟨h.1, h.2.1, ih h.2.2 k⟩

theorem SealedLast.take (h : SealedLast frames) (k : Nat) : SealedLast (frames.take k) := by
  intro f hf
  apply h f
  rw [List.dropLast_eq_take] at hf ⊢
  rw [List.take_take, List.length_take] at hf
  have hsub : min (min k frames.length - 1) k ≤ frames.length - 1 := by omega
  exact (List.take_subset_take_left frames hsub) hf

theorem OwnerScan.fold_sealedLast (h : frames.foldlM (OwnerScan.frame c) scan = .ok scan') :
    SealedLast frames := by
  induction frames generalizing scan with
  | nil =>
    intro f hf
    cases hf
  | cons f frames ih =>
    rw [List.foldlM_cons, bind_eq_ok] at h
    obtain ⟨scan₁, hf, hfold⟩ := h
    obtain ⟨-, -, hcover⟩ := OwnerScan.frame_ok hf
    cases frames with
    | nil =>
      intro g hg
      cases hg
    | cons g frames =>
      intro e he
      rw [List.dropLast_cons_of_ne_nil (List.cons_ne_nil _ _)] at he
      cases he with
      | head =>
        rw [List.foldlM_cons, bind_eq_ok] at hfold
        obtain ⟨scan₂, hg, -⟩ := hfold
        obtain ⟨-, hopen, -⟩ := OwnerScan.frame_ok hg
        rw [hcover] at hopen
        exact hopen
      | tail _ he => exact ih hfold e he

theorem scanOwner_records (hc : c.SelfDelimiting) (h : scanOwner c owner = .ok summary) :
    ∃ frames, Records (readOwnerFrame c) 0 owner frames ∧ Contiguous 0 frames ∧
      SealedLast frames := by
  obtain ⟨frames, ht, scan, hfold, -⟩ := scanOwner_ok.mp h
  exact ⟨frames, ht.records (readOwnerFrame_local hc), OwnerScan.fold_contiguous ht hfold,
    OwnerScan.fold_sealedLast hfold⟩

theorem streamFrames_prefix (h : Records (readOwnerFrame c) p x frames)
    (hc : Contiguous offset frames) (hrange : start ≤ stop)
    (hstop : stop ≤ offset + (content frames).length) (tail output : Bytes)
    (hfuel : (x ++ tail).length ≤ fuel) :
    streamFrames c start stop fuel ⟨p, x ++ tail⟩ offset output =
      .ok (output ++ window offset (content frames) start stop) := by
  induction h generalizing fuel offset output with
  | nil =>
    rw [content_nil, List.length_nil, Nat.add_zero] at hstop
    rw [window_stop_le _ hstop, List.append_nil]
    cases fuel with
    | zero => rfl
    | succ fuel =>
      rw [streamFrames, if_neg (fun hlt => absurd hstop (Nat.not_le.mpr hlt.1))]
      rfl
  | @cons p used f rest frames hr _ ih =>
    obtain ⟨hstart, hlen, hnext⟩ := hc
    have hread := hr.read_append (rest ++ tail)
    have hne : used ++ (rest ++ tail) ≠ [] := by simp [hr.nonempty]
    have hused := List.length_pos_iff.mpr hr.nonempty
    rw [List.append_assoc] at hfuel ⊢
    rw [List.length_append] at hfuel
    obtain _ | fuel := fuel
    · omega
    rw [streamFrames_step hread hne hstart hlen hrange]
    rw [content_cons, window_append, ← hlen, ← List.append_assoc]
    split
    · apply ih hnext _ _ (by omega)
      rw [content_cons, List.length_append] at hstop
      omega
    · rw [window_stop_le _ (by omega), window_stop_le _ (by omega), List.append_nil,
        List.append_nil]

theorem readOwnerFrame_take (hc : c.SelfDelimiting)
    (hr : readOwnerFrame c (Cursor.seek (owner.take n) p) = .ok (f, t)) :
    ∃ u, readOwnerFrame c (Cursor.seek owner p) = .ok (f, u) := by
  obtain ⟨used, hused, hreads⟩ := readOwnerFrame_local hc _ f t hr
  have hused : (owner.take n).drop p = used ++ t.rest := hused
  have hp : p ≤ (owner.take n).length := by
    by_contra hp
    rw [List.drop_of_length_le (by omega)] at hused
    exact hreads.nonempty (List.append_eq_nil_iff.mp hused.symm).1
  have hsplit : owner.drop p = used ++ (t.rest ++ owner.drop n) := by
    have := congrArg (List.drop p) (List.take_append_drop n owner)
    rw [List.drop_append_of_le_length hp, hused, List.append_assoc] at this
    exact this.symm
  exact ⟨_, by rw [Cursor.seek, hsplit]; exact hreads.read_append _⟩

theorem LeadsTo.take (hc : c.SelfDelimiting) (hl : LeadsTo c owner frames kind) (n : Nat) :
    LeadsTo c (owner.take n) frames kind := by
  intro index line rest hk hread hne hline frame hparse hlead
  obtain ⟨hrest, hfound⟩ := hl index line rest hk hread hne hline frame hparse hlead
  refine ⟨hrest, ?_⟩
  intro f t hr
  obtain ⟨u, hu⟩ := readOwnerFrame_take hc hr
  exact hfound f u hu

/-- The sidecar leads a reader only to frames: there is none, it is the writer's own, or no other place
of the owner looks like a frame. -/
def Guides (c : Codec) (owner : Bytes) (frames : List DecodedFrame) (index : Option Bytes) : Prop :=
  index = none ∨ c.RoundTrips ∧ Listed c index frames ∨ DecodesAtFrames c owner

theorem Guides.leadsTo (h : Guides c owner frames index) (ht : OwnerTrace c ⟨0, owner⟩ frames) :
    ∃ kind, LeadsTo c owner frames kind ∧ ∀ text ∈ index, kind text := by
  obtain rfl | ⟨hc, hlisted⟩ | hd := h
  · exact ⟨fun _ => False, fun _ _ _ hno => hno.elim, nofun⟩
  · exact ⟨_, Listed.leadsTo hc ht, fun text htext => htext ▸ hlisted⟩
  · exact ⟨_, hd.leadsTo ht, fun _ _ => trivial⟩

theorem records_before (hr : Records (readOwnerFrame c) 0 owner frames)
    (hk : boundary (frames.take k) ≤ n) :
    ∃ x y, owner.take n = x ++ y ∧ Records (readOwnerFrame c) 0 x (frames.take k) ∧
      x.length = boundary (frames.take k) := by
  have hsplit := hr
  rw [← List.take_append_drop k frames] at hsplit
  obtain ⟨x, y, rfl, hx, -⟩ := hsplit.split
  have hlen := boundary_eq hx
  refine ⟨x, y.take (n - x.length), ?_, hx, hlen.symm⟩
  rw [List.take_append, List.take_of_length_le (by omega)]

theorem torn_range (hc : c.SelfDelimiting) (hr : Records (readOwnerFrame c) 0 owner frames)
    (hcont : Contiguous 0 frames) (hguides : Guides c owner frames index)
    (hk : boundary (frames.take k) ≤ n) (hstop : stop ≤ (content (frames.take k)).length)
    (hvalid : validateRange start stop = .ok ()) :
    readExecutionLogRangeBytes c (owner.take n) index start stop =
      .ok (((content frames).drop start).take (stop - start)) := by
  obtain ⟨hrange, -⟩ := validateRange_ok.mp hvalid
  obtain ⟨kind, hl, hkind⟩ := hguides.leadsTo hr.trace
  have hbegins : window 0 (content (frames.take k)) start stop =
      window 0 (content frames) start stop := by
    have hsplit := content_append (frames.take k) (frames.drop k)
    rw [List.take_append_drop] at hsplit
    rw [hsplit, window_append, window_stop_le (content (frames.drop k)) (by omega),
      List.append_nil]
  rw [readExecutionLogRangeBytes, hvalid, ← window_zero]
  show readRangeBlocking c (owner.take n) index start stop = _
  unfold readRangeBlocking
  split
  · rename_i output h
    simp only [readRangeFromIndex, bind_eq_ok, expect_eq_ok] at h
    obtain ⟨text, htext, h⟩ := h
    rw [readIndexedFrames_ok (hl.take hc n) (hkind text htext) hcont hrange
      (fun _ => Nat.zero_le _) (Nat.le_refl _) h, List.nil_append]
  · obtain ⟨x, y, heq, hx, -⟩ := records_before hr hk
    rw [readRangeByStreamingDecode, heq]
    have := streamFrames_prefix hx (hcont.take k) hrange (by omega) y [] (Nat.le_refl _)
    rw [this, List.nil_append, hbegins]

theorem torn_records (hr : Records (readOwnerFrame c) 0 owner frames)
    (hk : boundary (frames.take k) = (owner.take n).length) :
    Records (readOwnerFrame c) 0 (owner.take n) (frames.take k) := by
  have hle : boundary (frames.take k) ≤ n := by
    rw [hk, List.length_take]
    omega
  obtain ⟨x, y, heq, hx, hlen⟩ := records_before hr hle
  have hy : y.length = 0 := by
    rw [heq, List.length_append] at hk
    omega
  rwa [heq, List.eq_nil_of_length_eq_zero hy, List.append_nil]

theorem torn_scan (hc : c.SelfDelimiting) (hr : Records (readOwnerFrame c) 0 owner frames)
    (hcont : Contiguous 0 frames) (hs : SealedLast frames) (n : Nat) :
    (∃ summary, scanOwner c (owner.take n) = .ok summary) ↔
      ∃ k, boundary (frames.take k) = (owner.take n).length ∧
        rowsComplete none 0 (legacyRows (frames.take k)) = true := by
  constructor
  · rintro ⟨summary, h⟩
    obtain ⟨frames', hr', hcont', hs'⟩ := scanOwner_records hc h
    have hcut := hr
    rw [← List.take_append_drop n owner] at hcut
    obtain ⟨bs, rfl, -⟩ := hr'.cut hcut
    refine ⟨frames'.length, ?_⟩
    rw [List.take_left]
    exact ⟨boundary_eq hr', (scanOwner_accepts hr'.trace hcont' hs').mp ⟨summary, h⟩⟩
  · rintro ⟨k, hk, hrows⟩
    have hx := torn_records hr hk
    exact (scanOwner_accepts hx.trace (hcont.take k) (hs.take k)).mpr hrows

/-- What lies in the frames before the cut is read back. -/
def ReadsBack (c : Codec) (torn : Bytes) (index : Option Bytes) (frames : List DecodedFrame)
    (n : Nat) : Prop :=
  ∀ k, boundary (frames.take k) ≤ n → ∀ start stop, stop ≤ (content (frames.take k)).length →
    validateRange start stop = .ok () → readExecutionLogRangeBytes c torn index start stop =
      .ok (((content frames).drop start).take (stop - start))

/-- The torn owner opens when its end is behind a frame and the rows are complete there, where the
writer then stands, and it is left as it is otherwise. -/
structure OpensAt (torn : Bytes) (frames : List DecodedFrame)
    (opened : Except LogError Recording × LogFiles) : Prop where
  kept : opened.2.owner = torn
  opens : (∃ r, opened.1 = .ok r) ↔ ∃ k, boundary (frames.take k) = torn.length ∧
    rowsComplete none 0 (legacyRows (frames.take k)) = true
  stands : ∀ r, opened.1 = .ok r → r.owner = torn ∧ ∃ k, boundary (frames.take k) = torn.length ∧
    r.uncompressedOffset = (content (frames.take k)).length ∧
    r.controlBytes = (controlContent (frames.take k)).length ∧
    r.sealed = (sealOf (frames.take k)).isSome

/-- A valid owner may be cut anywhere. -/
theorem torn_owner (c : Codec) (hc : c.SelfDelimiting) (owner : Bytes) (summary : OwnerSummary)
    (hvalid : scanOwner c owner = .ok summary) :
    ∃ frames, OwnerTrace c ⟨0, owner⟩ frames ∧ ∀ n index,
      (Guides c owner frames index → ReadsBack c (owner.take n) index frames n) ∧
      ∀ reserve hasIndex, OpensAt (owner.take n) frames
        (openLog c reserve hasIndex (some (owner.take n)) index) := by
  obtain ⟨frames, hr, hcont, hs⟩ := scanOwner_records hc hvalid
  refine ⟨frames, hr.trace, fun n index => ⟨?_, fun reserve hasIndex => ?_⟩⟩
  · intro hguides k hk start stop hstop hrange
    exact torn_range hc hr hcont hguides hk hstop hrange
  have hscan := torn_scan hc hr hcont hs n
  obtain ⟨files, howner, -, ⟨e, herror, hopen⟩ | ⟨found, hfound, hopen⟩⟩ :=
    openLog_cases c reserve hasIndex (some (owner.take n)) index
  all_goals
    have howner : files.owner = owner.take n := howner
    rw [hopen]
  · rw [howner] at herror
    refine ⟨howner, ?_, ?_⟩
    · rw [← hscan, herror]
      constructor
      · rintro ⟨r, h⟩
        cases h
      · rintro ⟨summary, h⟩
        cases h
    · intro r h
      cases h
  · rw [howner] at hfound
    obtain ⟨k, hk, hrows⟩ := hscan.mp ⟨found, hfound⟩
    have hx := torn_records hr hk
    obtain ⟨hbytes, hcontrol, houtcome⟩ :=
      scanOwner_summary hx.trace (hcont.take k) (hs.take k) hfound
    refine ⟨howner, ⟨fun _ => ⟨k, hk, hrows⟩, fun _ => ⟨_, rfl⟩⟩, ?_⟩
    intro r h
    obtain rfl := Except.ok.inj h
    exact ⟨howner, k, hk, hbytes, hcontrol, by rw [← houtcome]⟩

theorem torn_owner_sample :
    ∃ frames, OwnerTrace storedCodec ⟨0, Sample.owner⟩ frames ∧ ∀ n index,
      ReadsBack storedCodec (Sample.owner.take n) index frames n ∧
      ∀ reserve hasIndex, OpensAt (Sample.owner.take n) frames
        (openLog storedCodec reserve hasIndex (some (Sample.owner.take n)) index) :=
  have ⟨frames, ht, h⟩ := torn_owner storedCodec storedCodec_selfDelimiting Sample.owner
    ⟨3, none, false, none, 0⟩ (by decide +kernel)
  ⟨frames, ht, fun n index => ⟨(h n index).1 (.inr (.inr Sample.owner_decodes)), (h n index).2⟩⟩

end Cdesktop.ExecutionLog
