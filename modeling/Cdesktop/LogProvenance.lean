import Cdesktop.LogSession
import Cdesktop.LogTorn

/-! Pages of the owner's frame metadata, each resumed behind the last frame of the one before. -/

namespace Cdesktop.ExecutionLog
open RecordStream
set_option autoImplicit true

def maxProvenanceFrames : Nat := 128

structure ProvenanceFrame where
  rawStart : Nat
  rawStop : Nat
  compressedStart : Nat
  compressedStop : Nat
  capturedAt : Option Time
  control : Bool
  outcome : Option CaptureOutcome
  legacySqlRow : Option LegacySqlRow

structure ProvenancePage where
  frames : List ProvenanceFrame
  /-- Where the last returned frame begins in the owner. -/
  nextAfterFrame : Option Nat
  atAvailableEnd : Bool
  outcome : Option CaptureOutcome

def DecodedFrame.provenance (f : DecodedFrame) : ProvenanceFrame where
  rawStart := f.locator.start
  rawStop := f.locator.stop
  compressedStart := f.locator.compressedStart
  compressedStop := f.locator.compressedStop
  capturedAt := f.metadata.capturedAt
  control := f.metadata.control
  outcome := f.metadata.outcome
  legacySqlRow := f.metadata.legacySqlRow

def ProvenancePage.push (page : ProvenancePage) (f : DecodedFrame) : ProvenancePage :=
  { page with
    outcome := f.metadata.outcome
    nextAfterFrame := some f.locator.compressedStart
    frames := page.frames ++ [f.provenance] }

/-- At most so many more frames from a place. -/
def fillPage (c : Codec) : Nat → Cursor UInt8 → Nat → ProvenancePage →
    Except LogError (Cursor UInt8 × ProvenancePage)
  | 0, reader, _, page => return (reader, page)
  | room + 1, reader, rawEnd, page => do
    if reader.rest.isEmpty then return (reader, page)
    else
      let (frame, reader) ← readOwnerFrame c reader
      require (frame.locator.start = rawEnd ∧ page.outcome = none) .noncontiguousOwner
      fillPage c room reader frame.locator.stop (page.push frame)

/-- Where a page begins, how far the raw bytes reach there, and how the frame before it closed. -/
def pageAnchor (c : Codec) (owner : Bytes) (afterFrame : Option Nat) :
    Except LogError (Cursor UInt8 × Nat × Option CaptureOutcome) :=
  match afterFrame with
  | none => return (⟨0, owner⟩, 0, none)
  | some anchor => do
    let (frame, reader) ← readOwnerFrame c (Cursor.seek owner anchor)
    return (reader, frame.locator.stop, frame.metadata.outcome)

def readProvenanceBlocking (c : Codec) (owner : Bytes) (afterFrame : Option Nat) (limit : Nat) :
    Except LogError ProvenancePage := do
  let (reader, rawEnd, outcome) ← pageAnchor c owner afterFrame
  let (reader, page) ← fillPage c limit reader rawEnd
    { frames := [], nextAfterFrame := afterFrame, atAvailableEnd := false, outcome }
  let atAvailableEnd := reader.rest.isEmpty
  require (¬ (page.outcome.isSome ∧ ¬ atAvailableEnd)) .dataAfterSeal
  return { page with atAvailableEnd }

def readExecutionLogProvenance (c : Codec) (owner : Bytes) (afterFrame : Option Nat)
    (limit : Nat) : Except LogError ProvenancePage := do
  require (1 ≤ limit ∧ limit ≤ maxProvenanceFrames) .invalidPageSize
  readProvenanceBlocking c owner afterFrame limit

/-- Page after page, each asked for behind the one before it, with what has been appended to the
owner before the page is read. -/
def followPages (c : Codec) : Bytes → Option Nat → List (Bytes × Nat) →
    Except LogError (List ProvenancePage)
  | _, _, [] => return []
  | owner, afterFrame, (appended, limit) :: requests => do
    let page ← readExecutionLogProvenance c (owner ++ appended) afterFrame limit
    let pages ← followPages c (owner ++ appended) page.nextAfterFrame requests
    return page :: pages

/-- The frames of an owner, one after the other and closed by the last of them if at all. -/
structure Owns (c : Codec) (owner : Bytes) (frames : List DecodedFrame) : Prop where
  records : Records (readOwnerFrame c) 0 owner frames
  contiguous : Contiguous 0 frames
  sealedLast : SealedLast frames

def ValidOwner (c : Codec) (owner : Bytes) : Prop := ∃ frames, Owns c owner frames

def cursorAfter (frames : List DecodedFrame) : Option Nat :=
  frames.getLast?.map fun f => f.locator.compressedStart

@[simp] theorem cursorAfter_nil : cursorAfter [] = none := rfl

@[simp] theorem cursorAfter_snoc (frames : List DecodedFrame) (f : DecodedFrame) :
    cursorAfter (frames ++ [f]) = some f.locator.compressedStart := by
  simp [cursorAfter]

theorem Contiguous.append (h : Contiguous offset frames)
    (h' : Contiguous (offset + (content frames).length) frames') :
    Contiguous offset (frames ++ frames') := by
  induction frames generalizing offset with
  | nil => exact h'
  | cons f frames ih =>
    obtain ⟨hstart, hstop, hnext⟩ := h
    refine ⟨hstart, hstop, ih hnext ?_⟩
    rwa [content_cons, List.length_append, ← Nat.add_assoc, ← hstop] at h'

theorem Contiguous.last_stop (h : Contiguous offset (frames ++ [f])) :
    f.locator.stop = offset + (content (frames ++ [f])).length := by
  induction frames generalizing offset with
  | nil =>
    obtain ⟨-, hstop, -⟩ := h
    simpa using hstop
  | cons g frames ih =>
    obtain ⟨-, hstop, hnext⟩ := h
    rw [ih hnext, hstop, List.cons_append, content_cons, List.length_append, Nat.add_assoc]

theorem SealedLast.append (h : SealedLast frames) (hopen : frames' ≠ [] → sealOf frames = none)
    (h' : SealedLast frames') : SealedLast (frames ++ frames') := by
  by_cases hne : frames' = []
  · rwa [hne, List.append_nil]
  intro f hf
  rw [List.dropLast_append_of_ne_nil hne] at hf
  rcases List.mem_append.mp hf with hf | hf
  · exact h.all (hopen hne) f hf
  · exact h' f hf

theorem SealedLast.open_before (h : SealedLast (frames ++ frames')) (hne : frames' ≠ []) :
    sealOf frames = none := by
  obtain rfl | ⟨init, f, rfl⟩ := frames.eq_nil_or_concat
  · rfl
  rw [List.concat_eq_append] at h ⊢
  rw [sealOf_snoc]
  apply h f
  rw [List.dropLast_append_of_ne_nil hne]
  exact List.mem_append_left _ (by simp)

theorem SealedLast.right (h : SealedLast (frames ++ frames')) : SealedLast frames' := by
  by_cases hne : frames' = []
  · intro f hf
    rw [hne] at hf
    cases hf
  intro f hf
  apply h f
  rw [List.dropLast_append_of_ne_nil hne]
  exact List.mem_append_right _ hf

theorem Contiguous.right (h : Contiguous offset (frames ++ frames')) :
    Contiguous (offset + (content frames).length) frames' := by
  induction frames generalizing offset with
  | nil => exact h
  | cons f frames ih =>
    obtain ⟨-, hstop, hnext⟩ := h
    have := ih hnext
    rwa [hstop, Nat.add_assoc, ← List.length_append] at this

structure Filled (c : Codec) (room : Nat) (s : Cursor UInt8) (rawEnd : Nat)
    (page : ProvenancePage) (taken : Bytes) (new : List DecodedFrame) (t : Cursor UInt8)
    (page' : ProvenancePage) : Prop where
  ahead : s.rest = taken ++ t.rest
  records : Records (readOwnerFrame c) s.position taken new
  contiguous : Contiguous rawEnd new
  sealedLast : SealedLast new
  opened : new ≠ [] → page.outcome = none
  pushed : page' = new.foldl ProvenancePage.push page
  full : t.rest = [] ∨ new.length = room

theorem Filled.nothing (h : s.rest = [] ∨ room = 0) :
    Filled c room s rawEnd page [] [] s page where
  ahead := rfl
  records := .nil
  contiguous := trivial
  sealedLast := fun f hf => by cases hf
  opened := fun hne => absurd rfl hne
  pushed := rfl
  full := h.imp_right Eq.symm

theorem Filled.cons {s : Cursor UInt8} (hread : Reads (readOwnerFrame c) s.position used f)
    (hs : s.rest = used ++ rest) (hstart : f.locator.start = rawEnd)
    (hstop : f.locator.stop = f.locator.start + f.bytes.length) (hopen : page.outcome = none)
    (h : Filled c room ⟨s.position + used.length, rest⟩ f.locator.stop (page.push f) taken new t
      page') :
    Filled c (room + 1) s rawEnd page (used ++ taken) (f :: new) t page' where
  ahead := by rw [hs, List.append_assoc, ← h.ahead]
  records := .cons hread h.records
  contiguous := ⟨hstart, by rw [hstop, hstart], h.contiguous⟩
  sealedLast := by
    have hone : SealedLast [f] := fun g hg => by cases hg
    exact hone.append h.opened h.sealedLast
  opened := fun _ => hopen
  pushed := h.pushed
  full := h.full.imp_right fun hlen => by rw [List.length_cons, hlen]

theorem fillPage_reads (hc : c.SelfDelimiting)
    (h : fillPage c room s rawEnd page = .ok (t, page')) :
    ∃ taken new, Filled c room s rawEnd page taken new t page' := by
  induction room generalizing s rawEnd page with
  | zero =>
    cases h
    exact ⟨[], [], .nothing (.inr rfl)⟩
  | succ room ih =>
    rw [fillPage] at h
    split at h
    · rename_i hnil
      cases h
      exact ⟨[], [], .nothing (.inl (List.isEmpty_iff.mp hnil))⟩
    · simp only [bind_eq_ok, require_eq_ok, Prod.exists] at h
      obtain ⟨f, t₁, hread, -, ⟨hstart, hopen⟩, h⟩ := h
      obtain ⟨used, hs, hused⟩ := readOwnerFrame_local hc s f t₁ hread
      have ht := hused.read_append t₁.rest
      rw [← hs] at ht
      obtain ⟨-, ht⟩ := Prod.mk.inj (Except.ok.inj (hread.symm.trans ht))
      obtain ⟨taken, new, hfilled⟩ := ih h
      rw [ht] at hfilled
      exact ⟨used ++ taken, f :: new,
        .cons hused hs hstart (readOwnerFrame_stop hread) hopen hfilled⟩

theorem fillPage_succeeds (room : Nat) (page : ProvenancePage)
    (h : Records (readOwnerFrame c) p rest frames)
    (hcont : Contiguous rawEnd frames) (hs : SealedLast frames)
    (hopen : frames ≠ [] → page.outcome = none) :
    ∃ result, fillPage c room ⟨p, rest⟩ rawEnd page = .ok result := by
  induction room generalizing p rest rawEnd frames page with
  | zero => exact ⟨_, rfl⟩
  | succ room ih =>
    cases h with
    | nil => exact ⟨_, rfl⟩
    | @cons _ used f rest frames hread hrest =>
      have hne : (used ++ rest).isEmpty = false := by
        cases used with
        | nil => exact absurd rfl hread.nonempty
        | cons => rfl
      obtain ⟨hstart, -, hnext⟩ := hcont
      have hs' : SealedLast ([f] ++ frames) := hs
      obtain ⟨result, hresult⟩ := ih (page.push f) hrest hnext hs'.right hs'.open_before
      refine ⟨result, ?_⟩
      rw [fillPage, hne, hread.read_append rest]
      simp only [Bool.false_eq_true, if_false, require, bind, Except.bind, hstart,
        hopen (List.cons_ne_nil _ _), and_self, if_true]
      exact hresult

theorem foldl_push (frames : List DecodedFrame) (page : ProvenancePage) :
    frames.foldl ProvenancePage.push page =
      { page with
        frames := page.frames ++ frames.map DecodedFrame.provenance
        nextAfterFrame := (cursorAfter frames).or page.nextAfterFrame
        outcome := if frames = [] then page.outcome else sealOf frames } := by
  induction frames using List.reverseRecOn with
  | nil => simp
  | append_singleton frames f ih =>
    rw [List.foldl_append, ih]
    simp [ProvenancePage.push]

theorem cursorAfter_append (frames frames' : List DecodedFrame) :
    cursorAfter (frames ++ frames') = (cursorAfter frames').or (cursorAfter frames) := by
  obtain rfl | ⟨init, f, rfl⟩ := frames'.eq_nil_or_concat
  · rw [List.append_nil, cursorAfter_nil, Option.none_or]
  · rw [List.concat_eq_append, ← List.append_assoc, cursorAfter_snoc, cursorAfter_snoc,
      Option.some_or]

theorem sealOf_append (frames frames' : List DecodedFrame) :
    sealOf (frames ++ frames') = if frames' = [] then sealOf frames else sealOf frames' := by
  obtain rfl | ⟨init, f, rfl⟩ := frames'.eq_nil_or_concat
  · rw [List.append_nil, if_pos rfl]
  · rw [List.concat_eq_append, ← List.append_assoc, sealOf_snoc, sealOf_snoc, if_neg (by simp)]

theorem pageAnchor_after (h : Owns c taken frames) (ahead : Bytes) :
    pageAnchor c (taken ++ ahead) (cursorAfter frames) =
      .ok (⟨taken.length, ahead⟩, (content frames).length, sealOf frames) := by
  obtain rfl | ⟨init, f, rfl⟩ := frames.eq_nil_or_concat
  · cases h.records
    rfl
  rw [List.concat_eq_append] at *
  obtain ⟨before, used, rfl, -, hlast⟩ := h.records.split
  cases hlast with
  | @cons _ used _ rest _ hread hnil =>
    cases hnil
    rw [Nat.zero_add] at hread
    have hr := hread.read_append ahead
    have hseek : Cursor.seek (before ++ (used ++ []) ++ ahead) before.length =
        ⟨before.length, used ++ ahead⟩ := by
      rw [Cursor.seek, List.append_nil, List.append_assoc, List.drop_left]
    have hpos : f.locator.compressedStart = before.length := readOwnerFrame_position hr
    have hstop := h.contiguous.last_stop
    rw [Nat.zero_add] at hstop
    rw [cursorAfter_snoc, pageAnchor, hpos, hseek, hr, sealOf_snoc, ← hstop]
    simp [bind, Except.bind, pure, Except.pure]

structure Continued (c : Codec) (ahead : Bytes) (taken : Bytes) (frames : List DecodedFrame)
    (limit : Nat) (page : ProvenancePage) (read : Bytes) (new : List DecodedFrame)
    (left : Bytes) : Prop where
  split : ahead = read ++ left
  owns : Owns c (taken ++ read) (frames ++ new)
  returned : page.frames = new.map DecodedFrame.provenance
  nextAfterFrame : page.nextAfterFrame = cursorAfter (frames ++ new)
  outcome : page.outcome = sealOf (frames ++ new)
  atAvailableEnd : page.atAvailableEnd = left.isEmpty
  full : left = [] ∨ new.length = limit

theorem readExecutionLogProvenance_reads (hc : c.SelfDelimiting) (h : Owns c taken frames)
    (hp : readExecutionLogProvenance c (taken ++ ahead) (cursorAfter frames) limit = .ok page) :
    ∃ read new left, Continued c ahead taken frames limit page read new left := by
  simp only [readExecutionLogProvenance, readProvenanceBlocking, bind_eq_ok, require_eq_ok,
    Prod.exists, pageAnchor_after h] at hp
  obtain ⟨-, -, s, rawEnd, outcome, hanchor, t, filled, hfill, hend⟩ := hp
  obtain ⟨rfl, hrest⟩ := Prod.mk.inj (Except.ok.inj hanchor)
  obtain ⟨rfl, rfl⟩ := Prod.mk.inj hrest
  obtain ⟨read, new, hf⟩ := fillPage_reads hc hfill
  obtain ⟨-, -, hend⟩ := hend
  obtain rfl := Except.ok.inj hend
  have hpushed := hf.pushed
  rw [foldl_push] at hpushed
  refine ⟨read, new, t.rest, hf.ahead, ⟨?_, ?_, ?_⟩, ?_, ?_, ?_, rfl, hf.full⟩
  · apply h.records.append
    rw [Nat.zero_add]
    exact hf.records
  · apply h.contiguous.append
    rw [Nat.zero_add]
    exact hf.contiguous
  · exact h.sealedLast.append hf.opened hf.sealedLast
  · rw [hpushed, List.nil_append]
  · rw [hpushed, cursorAfter_append]
  · rw [hpushed, sealOf_append]

theorem readExecutionLogProvenance_succeeds (hc : c.SelfDelimiting) (h : Owns c taken frames)
    (hv : Owns c (taken ++ ahead) all) (hlimit : 1 ≤ limit ∧ limit ≤ maxProvenanceFrames) :
    ∃ page, readExecutionLogProvenance c (taken ++ ahead) (cursorAfter frames) limit =
      .ok page := by
  obtain ⟨rest, rfl, hrest⟩ := h.records.cut hv.records
  rw [Nat.zero_add] at hrest
  have hcont := hv.contiguous.right
  rw [Nat.zero_add] at hcont
  obtain ⟨⟨t, filled⟩, hfill⟩ := fillPage_succeeds limit
    ⟨[], cursorAfter frames, false, sealOf frames⟩ hrest hcont hv.sealedLast.right
    hv.sealedLast.open_before
  obtain ⟨read, new, hf⟩ := fillPage_reads hc hfill
  have hahead : ahead = read ++ t.rest := hf.ahead
  have hsplit := hrest
  rw [hahead] at hsplit
  obtain ⟨later, rfl, hlater⟩ := hf.records.cut hsplit
  have hpushed := hf.pushed
  rw [foldl_push] at hpushed
  have hseal : ¬ (filled.outcome.isSome ∧ ¬ t.rest.isEmpty) := by
    rintro ⟨hsome, hleft⟩
    have hne : later ≠ [] := by
      intro hnil
      rw [hnil] at hlater
      generalize hx : t.rest = x at hlater hleft
      cases hlater
      exact hleft rfl
    have hs := hv.sealedLast
    rw [← List.append_assoc] at hs
    have hnone := hs.open_before hne
    rw [sealOf_append] at hnone
    rw [hpushed] at hsome
    simp only [hnone] at hsome
    cases hsome
  refine ⟨{ filled with atAvailableEnd := t.rest.isEmpty }, ?_⟩
  simp only [readExecutionLogProvenance, readProvenanceBlocking, bind_eq_ok, require_eq_ok,
    Prod.exists, pageAnchor_after h]
  exact ⟨(), hlimit, _, _, _, rfl, t, filled, hfill, (), hseal, rfl⟩

def Grows (c : Codec) : Bytes → List (Bytes × Nat) → Prop
  | _, [] => True
  | owner, (appended, _) :: requests =>
    ValidOwner c (owner ++ appended) ∧ Grows c (owner ++ appended) requests

structure Followed (c : Codec) (ahead taken : Bytes) (frames : List DecodedFrame)
    (requests : List (Bytes × Nat)) (pages : List ProvenancePage) (read : Bytes)
    (new : List DecodedFrame) (left : Bytes) : Prop where
  split : ahead ++ requests.flatMap Prod.fst = read ++ left
  owns : Owns c (taken ++ read) (frames ++ new)
  returned : pages.flatMap (·.frames) = new.map DecodedFrame.provenance
  count : pages.length = requests.length
  idle : requests = [] → read = []
  last : ∀ page ∈ pages.getLast?, page.atAvailableEnd = left.isEmpty ∧
    page.nextAfterFrame = cursorAfter (frames ++ new) ∧ page.outcome = sealOf (frames ++ new)
  lastFull : ∀ page ∈ pages.getLast?, ∀ request ∈ requests.getLast?,
    page.atAvailableEnd = true ∨ page.frames.length = request.2
  full : (∀ r ∈ requests, r.1 = []) → left = [] ∨ new.length = (requests.map Prod.snd).sum

theorem Owns.nothing_read (h : Owns c taken frames) (h' : Owns c (taken ++ []) (frames ++ new)) :
    new = [] := by
  rw [List.append_nil] at h'
  have := h'.records.trace.unique h.records.trace
  simpa using this

theorem Continued.followed {read : Bytes}
    (h : Continued c (ahead ++ appended) taken frames limit page read new
      left)
    (h' : Followed c left (taken ++ read) (frames ++ new) requests pages read' new' left') :
    Followed c ahead taken frames ((appended, limit) :: requests) (page :: pages)
      (read ++ read') (new ++ new') left' where
  split := by
    rw [List.flatMap_cons, ← List.append_assoc, h.split, List.append_assoc, h'.split,
      List.append_assoc]
  owns := by
    rw [← List.append_assoc, ← List.append_assoc]
    exact h'.owns
  returned := by rw [List.flatMap_cons, h.returned, h'.returned, List.map_append]
  count := by rw [List.length_cons, List.length_cons, h'.count]
  idle := fun hnil => by cases hnil
  last := by
    rw [← List.append_assoc]
    cases pages with
    | nil =>
      obtain rfl := List.eq_nil_of_length_eq_zero h'.count.symm
      obtain rfl := h'.idle rfl
      obtain rfl := h.owns.nothing_read h'.owns
      have hleft := h'.split
      rw [List.flatMap_nil, List.append_nil, List.nil_append] at hleft
      intro last hlast
      obtain rfl : page = last := by simpa using hlast
      rw [List.append_nil, ← hleft]
      exact ⟨h.atAvailableEnd, h.nextAfterFrame, h.outcome⟩
    | cons next pages =>
      rw [List.getLast?_cons_cons]
      exact h'.last
  lastFull := by
    cases pages with
    | nil =>
      obtain rfl := List.eq_nil_of_length_eq_zero h'.count.symm
      intro last hlast request hrequest
      obtain rfl : page = last := by simpa using hlast
      obtain rfl : (appended, limit) = request := by simpa using hrequest
      rw [h.atAvailableEnd, h.returned, List.length_map]
      exact h.full.imp_left fun hleft => List.isEmpty_iff.mpr hleft
    | cons next pages =>
      cases requests with
      | nil => cases h'.count
      | cons request requests =>
        rw [List.getLast?_cons_cons, List.getLast?_cons_cons]
        exact h'.lastFull
  full := by
    intro hnone
    have hnone' : ∀ r ∈ requests, r.1 = [] := fun r hr => hnone r (List.mem_cons_of_mem _ hr)
    obtain rfl | hlen := h.full
    · left
      have hsplit := h'.split
      have hflat : requests.flatMap Prod.fst = [] := List.flatMap_eq_nil_iff.mpr hnone'
      rw [hflat, List.append_nil] at hsplit
      exact (List.append_eq_nil_iff.mp hsplit.symm).2
    · refine (h'.full hnone').imp_right ?_
      intro hlen'
      rw [List.length_append, hlen, hlen', List.map_cons, List.sum_cons]

theorem Followed.nothing (h : Owns c taken frames) :
    Followed c ahead taken frames [] [] [] [] ahead where
  split := by rw [List.flatMap_nil, List.append_nil, List.nil_append]
  owns := by rwa [List.append_nil, List.append_nil]
  returned := rfl
  count := rfl
  idle := fun _ => rfl
  last := fun page hpage => by cases hpage
  lastFull := fun page hpage => by cases hpage
  full := fun _ => .inr rfl

theorem followPages_reads (hc : c.SelfDelimiting) (h : Owns c taken frames)
    (hp : followPages c (taken ++ ahead) (cursorAfter frames) requests = .ok pages) :
    ∃ read new left, Followed c ahead taken frames requests pages read new left := by
  induction requests generalizing taken frames ahead pages with
  | nil =>
    cases hp
    exact ⟨[], [], ahead, .nothing h⟩
  | cons request requests ih =>
    obtain ⟨appended, limit⟩ := request
    simp only [followPages, bind_eq_ok] at hp
    obtain ⟨page, hpage, later, hlater, hpages⟩ := hp
    obtain rfl := Except.ok.inj hpages
    rw [List.append_assoc] at hpage hlater
    obtain ⟨read, new, left, hcont⟩ := readExecutionLogProvenance_reads hc h hpage
    rw [hcont.split, ← List.append_assoc, hcont.nextAfterFrame] at hlater
    obtain ⟨read', new', left', hfollowed⟩ := ih hcont.owns hlater
    exact ⟨_, _, left', hcont.followed hfollowed⟩

theorem followPages_succeeds (hc : c.SelfDelimiting) (h : Owns c taken frames)
    (hv : Grows c (taken ++ ahead) requests)
    (hlimits : ∀ r ∈ requests, 1 ≤ r.2 ∧ r.2 ≤ maxProvenanceFrames) :
    ∃ pages, followPages c (taken ++ ahead) (cursorAfter frames) requests = .ok pages := by
  induction requests generalizing taken frames ahead with
  | nil => exact ⟨[], rfl⟩
  | cons request requests ih =>
    obtain ⟨appended, limit⟩ := request
    obtain ⟨⟨all, hall⟩, hgrows⟩ := hv
    rw [List.append_assoc] at hall hgrows
    obtain ⟨page, hpage⟩ := readExecutionLogProvenance_succeeds hc h hall
      (hlimits _ List.mem_cons_self)
    obtain ⟨read, new, left, hcont⟩ := readExecutionLogProvenance_reads hc h hpage
    rw [hcont.split, ← List.append_assoc] at hgrows
    obtain ⟨pages, hpages⟩ := ih hcont.owns hgrows
      (fun r hr => hlimits r (List.mem_cons_of_mem _ hr))
    refine ⟨page :: pages, ?_⟩
    rw [← hcont.nextAfterFrame] at hpages
    simp only [followPages, bind_eq_ok]
    rw [List.append_assoc]
    refine ⟨page, hpage, pages, ?_, rfl⟩
    rw [hcont.split, ← List.append_assoc]
    exact hpages

theorem compressedStart_pairwise (h : Records (readOwnerFrame c) p l frames) :
    (∀ f ∈ frames, p ≤ f.locator.compressedStart) ∧
      (frames.map fun f => f.locator.compressedStart).Pairwise (· < ·) := by
  induction h with
  | nil => exact ⟨fun f hf => by (cases hf), .nil⟩
  | @cons p used f rest frames hread _ ih =>
    have hpos : f.locator.compressedStart = p :=
      readOwnerFrame_position (hread.read_append [])
    have hused := List.length_pos_iff.mpr hread.nonempty
    refine ⟨List.forall_mem_cons.mpr ⟨hpos.ge, ?_⟩, List.Pairwise.cons ?_ ih.2⟩
    · intro g hg
      have := ih.1 g hg
      omega
    · intro start hstart
      obtain ⟨g, hg, rfl⟩ := List.mem_map.mp hstart
      have hle := ih.1 g hg
      show f.locator.compressedStart < g.locator.compressedStart
      omega

theorem cursorAfter_injective (h : Owns c owner frames) (hm : m ≤ frames.length)
    (hn : n ≤ frames.length) (heq : cursorAfter (frames.take m) = cursorAfter (frames.take n)) :
    m = n := by
  have hcursor : ∀ k ≤ frames.length, cursorAfter (frames.take k) =
      if k = 0 then none else (frames.map fun f => f.locator.compressedStart)[k - 1]? := by
    intro k hk
    cases k with
    | zero => rfl
    | succ k =>
      rw [cursorAfter, List.getLast?_take, if_neg (Nat.succ_ne_zero k),
        if_neg (Nat.succ_ne_zero k), List.getElem?_map, Nat.add_sub_cancel]
      have hk' : k < frames.length := hk
      rw [List.getElem?_eq_getElem hk']
      rfl
  rw [hcursor m hm, hcursor n hn] at heq
  have hnodup := (compressedStart_pairwise h.records).2.imp (fun hlt => Nat.ne_of_lt hlt)
  cases m with
  | zero =>
    cases n with
    | zero => rfl
    | succ n =>
      rw [if_pos rfl, if_neg (Nat.succ_ne_zero n), Nat.add_sub_cancel, eq_comm,
        List.getElem?_eq_none_iff, List.length_map] at heq
      omega
  | succ m =>
    cases n with
    | zero =>
      rw [if_pos rfl, if_neg (Nat.succ_ne_zero m), Nat.add_sub_cancel,
        List.getElem?_eq_none_iff, List.length_map] at heq
      omega
    | succ n =>
      rw [if_neg (Nat.succ_ne_zero m), if_neg (Nat.succ_ne_zero n), Nat.add_sub_cancel,
        Nat.add_sub_cancel] at heq
      have hlt : m < (frames.map fun f => f.locator.compressedStart).length := by
        rw [List.length_map]
        exact hm
      rw [(List.getElem?_inj hlt hnodup).mp heq]

theorem Followed.at_end {read : Bytes}
    (h : Followed c [] [] [] requests pages read new left)
    (hv : Owns c (requests.flatMap Prod.fst) frames) :
    new = frames.take new.length ∧ new.length ≤ frames.length ∧
      (left.isEmpty = true ↔ new.length = frames.length) := by
  have hsplit := h.split
  rw [List.nil_append] at hsplit
  have hall := hv.records
  rw [hsplit] at hall
  obtain ⟨later, rfl, hlater⟩ := h.owns.records.cut hall
  rw [List.nil_append, List.take_left, List.length_append, List.isEmpty_iff]
  refine ⟨rfl, Nat.le_add_right _ _, ?_⟩
  cases hlater with
  | nil => simp
  | cons hread _ =>
    have hne := hread.nonempty
    simp [hne]

theorem page_at_end (hc : c.SelfDelimiting) (h : Owns c owner frames)
    (hlimit : 1 ≤ limit ∧ limit ≤ maxProvenanceFrames) :
    readExecutionLogProvenance c owner (cursorAfter frames) limit =
      .ok { frames := [], nextAfterFrame := cursorAfter frames, atAvailableEnd := true
            outcome := sealOf frames } := by
  have howns := h
  rw [← List.append_nil owner] at h
  obtain ⟨page, hpage⟩ := readExecutionLogProvenance_succeeds hc howns h hlimit
  rw [List.append_nil] at hpage
  rw [hpage]
  rw [← List.append_nil owner] at hpage
  obtain ⟨read, new, left, hcont⟩ := readExecutionLogProvenance_reads hc howns hpage
  obtain ⟨rfl, rfl⟩ := List.append_eq_nil_iff.mp hcont.split.symm
  obtain rfl := howns.nothing_read hcont.owns
  obtain ⟨pageFrames, nextAfterFrame, atAvailableEnd, outcome⟩ := page
  have hreturned := hcont.returned
  have hnext := hcont.nextAfterFrame
  have hend := hcont.atAvailableEnd
  have houtcome := hcont.outcome
  rw [List.append_nil] at hnext houtcome
  simp only at hreturned hnext hend houtcome
  rw [hreturned, hnext, hend, houtcome]
  rfl

theorem Grows.still (h : ValidOwner c owner) (limits : List Nat) :
    Grows c owner (limits.map (([], ·))) := by
  induction limits with
  | nil => trivial
  | cons limit limits ih =>
    rw [List.map_cons, Grows, List.append_nil]
    exact ⟨h, ih⟩

theorem Records.length_le {read : Reader ε α β} (h : Records read p l as) :
    as.length ≤ l.length := by
  induction h with
  | nil => exact Nat.le_refl _
  | cons hread _ ih =>
    have := List.length_pos_iff.mpr hread.nonempty
    rw [List.length_cons, List.length_append]
    omega

/-- Every way of paging through a valid owner, growing or not, returns its frames each once and in
order up to where the cursor stands; no two places have the same cursor, the end is reported exactly
behind the last frame, and asked for again it is the same empty page. An owner whose frames do not
follow one another, or go on behind a seal, is never paged to its end. -/
theorem provenance_pages (c : Codec) (hc : c.SelfDelimiting) :
    (∀ requests, (∀ r ∈ requests, 1 ≤ r.2 ∧ r.2 ≤ maxProvenanceFrames) → Grows c [] requests →
      ∀ frames, Owns c (requests.flatMap Prod.fst) frames →
        ∃ pages n, followPages c [] none requests = .ok pages ∧ n ≤ frames.length ∧
          pages.flatMap (·.frames) = (frames.take n).map DecodedFrame.provenance ∧
          ∀ page ∈ pages.getLast?, page.nextAfterFrame = cursorAfter (frames.take n) ∧
            (page.atAvailableEnd = true ↔ n = frames.length) ∧
            (∀ request ∈ requests.getLast?,
              page.atAvailableEnd = true ∨ page.frames.length = request.2) ∧
            (page.atAvailableEnd = true → ∀ limit, 1 ≤ limit ∧ limit ≤ maxProvenanceFrames →
              readExecutionLogProvenance c (requests.flatMap Prod.fst) page.nextAfterFrame limit =
                .ok { page with frames := [] })) ∧
    (∀ owner frames, Owns c owner frames → ∀ m ≤ frames.length, ∀ n ≤ frames.length,
      cursorAfter (frames.take m) = cursorAfter (frames.take n) → m = n) ∧
    ∀ owner (limits : List Nat), (∀ limit ∈ limits, 1 ≤ limit ∧ limit ≤ maxProvenanceFrames) →
      owner.length < limits.sum →
        (ValidOwner c owner →
          ∃ pages, followPages c owner none (limits.map (([], ·))) = .ok pages) ∧
        ∀ pages, followPages c owner none (limits.map (([], ·))) = .ok pages →
          ∃ frames, Owns c owner frames ∧
            pages.flatMap (·.frames) = frames.map DecodedFrame.provenance := by
  have hempty : Owns c [] [] := ⟨.nil, trivial, fun f hf => by cases hf⟩
  refine ⟨?_, ?_, ?_⟩
  · intro requests hlimits hgrows frames hv
    have hgrows' : Grows c ([] ++ []) requests := hgrows
    obtain ⟨pages, hpages⟩ := followPages_succeeds hc hempty hgrows' hlimits
    obtain ⟨read, new, left, hf⟩ := followPages_reads hc hempty hpages
    obtain ⟨hnew, hle, hend⟩ := hf.at_end hv
    refine ⟨pages, new.length, hpages, hle, ?_, ?_⟩
    · rw [← hnew, hf.returned]
    · intro page hpage
      obtain ⟨hpageEnd, hcursor, houtcome⟩ := hf.last page hpage
      rw [List.nil_append] at hcursor houtcome
      rw [← hnew]
      refine ⟨hcursor, ?_, hf.lastFull page hpage, ?_⟩
      · rw [hpageEnd]
        exact hend
      · intro hatEnd limit hlimit
        have hall : new = frames := by
          rw [hpageEnd] at hatEnd
          rw [hnew, hend.mp hatEnd, List.take_length]
        rw [hall] at hcursor houtcome
        rw [hcursor, page_at_end hc hv hlimit]
        obtain ⟨pageFrames, nextAfterFrame, atAvailableEnd, outcome⟩ := page
        simp only at hcursor houtcome hatEnd
        rw [hcursor, houtcome, hatEnd]
  · intro owner frames h m hm n hn
    exact cursorAfter_injective h hm hn
  · intro owner limits hlimits hsum
    refine ⟨?_, ?_⟩
    · intro hv
      have hstill : Grows c ([] ++ owner) (limits.map (([], ·))) := Grows.still hv limits
      apply followPages_succeeds hc hempty hstill
      intro r hr
      obtain ⟨limit, hlimit, rfl⟩ := List.mem_map.mp hr
      exact hlimits limit hlimit
    · intro pages hpages
      have hpages' : followPages c ([] ++ owner) (cursorAfter []) (limits.map (([], ·))) =
          .ok pages := hpages
      obtain ⟨read, new, left, hf⟩ := followPages_reads hc hempty hpages'
      have hnone : ∀ r ∈ limits.map ((([] : Bytes), ·)), r.1 = [] := by
        intro r hr
        obtain ⟨limit, -, rfl⟩ := List.mem_map.mp hr
        rfl
      have hsplit := hf.split
      rw [List.flatMap_eq_nil_iff.mpr hnone, List.append_nil] at hsplit
      have howns := hf.owns
      rw [List.nil_append, List.nil_append] at howns
      obtain rfl | hlen := hf.full hnone
      · rw [List.append_nil] at hsplit
        rw [hsplit]
        exact ⟨new, howns, hf.returned⟩
      · have hbound := Records.length_le howns.records
        rw [List.map_map] at hlen
        have hid : limits.map (Prod.snd ∘ (([] : Bytes), ·)) = limits := List.map_id limits
        rw [hid] at hlen
        rw [hsplit, List.length_append] at hsum
        omega

theorem ValidOwner.of_scan (hc : c.SelfDelimiting) (h : scanOwner c owner = .ok summary) :
    ValidOwner c owner := by
  obtain ⟨frames, hr, hcont, hs⟩ := scanOwner_records hc h
  exact ⟨frames, hr, hcont, hs⟩

namespace Sample

def appended : List Bytes :=
  [owner, capturedRecord storedCodec [] ⟨none, 3, false, none, some ⟨7, "2025", 0, 0⟩⟩,
    capturedRecord storedCodec [] ⟨some 2, 3, true, some .complete, none⟩]

def requests : List (Bytes × Nat) := appended.zip [1, 2, 128]

theorem requests_grow : Grows storedCodec [] requests :=
  ⟨.of_scan storedCodec_selfDelimiting
      (show scanOwner storedCodec _ = .ok ⟨3, none, false, none, 0⟩ by decide +kernel),
    .of_scan storedCodec_selfDelimiting
      (show scanOwner storedCodec _ = .ok ⟨3, none, true, none, 0⟩ by decide +kernel),
    .of_scan storedCodec_selfDelimiting
      (show scanOwner storedCodec _ = .ok ⟨3, some .complete, true, none, 0⟩ by decide +kernel), trivial⟩

end Sample

theorem provenance_pages_sample :
    ∃ frames pages n, Owns storedCodec (Sample.requests.flatMap Prod.fst) frames ∧
      followPages storedCodec [] none Sample.requests = .ok pages ∧ n ≤ frames.length ∧
      pages.flatMap (·.frames) = (frames.take n).map DecodedFrame.provenance ∧
      ∀ page ∈ pages.getLast?, page.nextAfterFrame = cursorAfter (frames.take n) ∧
        (page.atAvailableEnd = true ↔ n = frames.length) := by
  obtain ⟨-, -, ⟨frames, hv⟩, -⟩ := Sample.requests_grow
  obtain ⟨pages, n, hpages, hn, hframes, hlast⟩ :=
    (provenance_pages storedCodec storedCodec_selfDelimiting).1 Sample.requests (by decide)
      Sample.requests_grow frames hv
  refine ⟨frames, pages, n, hv, hpages, hn, hframes, ?_⟩
  intro page hpage
  obtain ⟨hcursor, hend, -⟩ := hlast page hpage
  exact ⟨hcursor, hend⟩

end Cdesktop.ExecutionLog
