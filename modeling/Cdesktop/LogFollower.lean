import Cdesktop.LogRoundTrip
import Cdesktop.LogTorn

/-! A reader that follows a log by its confirmed pages while it is written. -/

namespace Cdesktop.ExecutionLog
set_option autoImplicit true

/-- A log that is written, and what a reader has taken of it from pages that were confirmed. -/
structure Follower where
  session : LogSession
  taken : Bytes
  /-- As much of the owner as the last confirmation has synced. -/
  synced : Nat

inductive FollowerStep where
  | write (step : LogStep)
  | read (limit : Nat) (confirmation : Confirmation)

def FollowerStep.faultless : FollowerStep → Prop
  | write step => step.faultless ∧ step.keepsSidecar
  | read .. => True

def FollowerStep.size (c : Codec) : FollowerStep → Nat
  | write step => step.size c
  | read .. => 0

namespace Follower

def new (session : LogSession) : Follower := ⟨session, [], 0⟩

/-- Only a confirmed page moves the reader on, and to its actual end. -/
def step (c : Codec) (s : Follower) : FollowerStep → Follower
  | .write step => { s with session := (s.session.step c step).2 }
  | .read limit confirmation =>
    match readExecutionLogPage c s.session.files.owner s.session.files.index s.taken.length
      (s.taken.length + limit) confirmation with
    | .ok (bytes, .confirmed) =>
      { s with taken := s.taken ++ bytes, synced := s.session.files.owner.length }
    | _ => s

/-- What the reader can rely on. A crash may cut the owner anywhere behind what was synced. -/
structure Reliable (c : Codec) (s : Follower) (frames : List DecodedFrame) : Prop where
  owner : OwnerHolds c s.session.files frames True
  taken : s.taken <+: content frames
  next : ∀ limit ≤ maxExecutionLogRangeBytes, (s.step c (.read limit .done)).taken =
    (content frames).take (s.taken.length + limit)
  survives : DecodesAtFrames c s.session.files.owner → ∀ n ≥ s.synced, ∀ index start stop,
    stop ≤ s.taken.length → validateRange start stop = .ok () →
      readExecutionLogRangeBytes c (s.session.files.owner.take n) index start stop =
        .ok ((s.taken.drop start).take (stop - start))

structure Follows (c : Codec) (s : Follower) (frames : List DecodedFrame) : Prop where
  holds : s.session.Holds c True frames
  taken : ∃ synced later, frames = synced ++ later ∧ s.taken <+: content synced ∧
    boundary synced ≤ s.synced

theorem Follows.taken_begins (h : Follows c s frames) : s.taken <+: content frames := by
  obtain ⟨synced, later, rfl, htaken, -⟩ := h.taken
  rw [content_append]
  exact htaken.trans (List.prefix_append _ _)

theorem Follows.read (h : Follows c s frames) (hc : c.RoundTrips) (limit : Nat)
    (confirmation : Confirmation) : s.step c (.read limit confirmation) =
      if limit ≤ maxExecutionLogRangeBytes ∧ confirmation = .done then
        { s with
          taken := (content frames).take (s.taken.length + limit)
          synced := s.session.files.owner.length }
      else s := by
  rw [step, readExecutionLogPage]
  by_cases hlimit : limit ≤ maxExecutionLogRangeBytes
  · have hrange := (h.holds.ownerHolds hc).range (.inl trivial) s.taken.length
      (s.taken.length + limit) (validateRange_ok.mpr ⟨Nat.le_add_right _ _, by omega⟩)
    rw [Nat.add_sub_cancel_left] at hrange
    rw [hrange]
    cases confirmation with
    | done =>
      rw [if_pos ⟨hlimit, rfl⟩, List.take_add, ← List.prefix_iff_eq_take.mp h.taken_begins]
      rfl
    | unsupported => rw [if_neg (by simp)]; rfl
    | failed => rw [if_neg (by simp)]; rfl
  · rw [if_neg fun hboth => hlimit hboth.1]
    split
    · rename_i bytes hpage
      simp only [readExecutionLogRangeBytes, bind_eq_ok, validateRange_ok] at hpage
      omega
    · rfl

theorem Follows.reliable (h : Follows c s frames) (hc : c.RoundTrips) (hcut : c.SelfDelimiting) :
    Reliable c s frames where
  owner := h.holds.ownerHolds hc
  taken := h.taken_begins
  next limit hlimit := by rw [h.read hc, if_pos ⟨hlimit, rfl⟩]
  survives := by
    intro hdecodes n hn index start stop hstop hvalid
    obtain ⟨hr, hcont, -, -⟩ := h.holds.trace
    obtain ⟨rest, hrest⟩ := h.taken_begins
    obtain ⟨hrange, -⟩ := validateRange_ok.mp hvalid
    obtain ⟨synced, later, rfl, htaken, hsynced⟩ := h.taken
    have hbegin : synced = (synced ++ later).take synced.length := List.take_left.symm
    rw [hbegin] at htaken hsynced
    rw [torn_range hcut hr hcont (.inr (.inr hdecodes)) (hsynced.trans hn)
      (hstop.trans htaken.length_le) hvalid, ← hrest, List.drop_append_of_le_length (hrange.trans hstop), List.take_append_of_le_length]
    rw [List.length_drop]
    omega

theorem Follows.step (h : Follows c s frames) (hc : c.RoundTrips) (step : FollowerStep)
    (hfaultless : step.faultless) (hbytes : (content frames).length + step.size c ≤ maxU64) :
    ∃ more, Follows c (s.step c step) (frames ++ more) ∧ (content more).length ≤ step.size c := by
  cases step with
  | write w =>
    obtain ⟨groups, -, hholds, hsize⟩ :=
      h.holds.step hc w hfaultless.1 (fun _ => hfaultless.2) hbytes
    obtain ⟨synced, later, rfl, hsynced⟩ := h.taken
    exact ⟨groups.flatten, ⟨hholds, synced, later ++ groups.flatten, List.append_assoc .., hsynced⟩,
      hsize⟩
  | read limit confirmation =>
    refine ⟨[], ?_, Nat.zero_le _⟩
    rw [List.append_nil, h.read hc]
    split
    · refine ⟨h.holds, frames, [], (List.append_nil _).symm, List.take_prefix _ _, ?_⟩
      exact (boundary_eq h.holds.trace.1).le
    · exact h

theorem Follows.run (h : Follows c s frames) (hc : c.RoundTrips) (steps : List FollowerStep)
    (hfaultless : ∀ step ∈ steps, step.faultless)
    (hbytes : (content frames).length + (steps.map (FollowerStep.size c)).sum ≤ maxU64) :
    ∃ frames, Follows c (steps.foldl (Follower.step c) s) frames := by
  induction steps generalizing s frames with
  | nil => exact ⟨frames, h⟩
  | cons step steps ih =>
    rw [List.map_cons, List.sum_cons] at hbytes
    obtain ⟨hstep, hsteps⟩ := List.forall_mem_cons.mp hfaultless
    obtain ⟨more, hmore, hsize⟩ := h.step hc step hstep (by omega)
    apply ih hmore hsteps
    rw [content_append, List.length_append]
    omega

/-- In every run of a writer and a reader, what was taken is the beginning of the log, the next
confirmed page goes on there, and no crash takes back what a confirmed page has given: of an owner
cut behind what was synced, all of it is read again. -/
theorem run_reliable (c : Codec) (hc : c.RoundTrips) (hcut : c.SelfDelimiting) (reserve : Nat)
    (hasIndex : Bool) (steps : List FollowerStep) (hfaultless : ∀ step ∈ steps, step.faultless)
    (hsize : (steps.map (FollowerStep.size c)).sum ≤ maxU64) :
    ∃ frames, Reliable c (steps.foldl (step c) (new (.fresh c reserve hasIndex none))) frames := by
  have hnew : Follows c (new (.fresh c reserve hasIndex none)) [] :=
    ⟨LogSession.fresh_holds c reserve hasIndex fun _ => rfl, [], [], rfl, List.prefix_rfl,
      Nat.zero_le _⟩
  obtain ⟨frames, hrun⟩ := hnew.run hc steps hfaultless (by simpa [content] using hsize)
  exact ⟨frames, hrun.reliable hc hcut⟩

end Follower

/-- A page before the last line, one that nobody could sync, and one behind it. -/
def Sample.follower : List FollowerStep :=
  [.write (.perform (.appendJsonlLine [97, 98] storage storage)), .read 4 .done,
    .write (.perform (.appendControlLine [101] storage)), .read 4 .unsupported, .read 1 .done]

theorem run_reliable_sample : ∃ frames, Follower.Reliable storedCodec
    (Sample.follower.foldl (Follower.step storedCodec) (.new (.fresh storedCodec 0 true none)))
    frames := by
  refine Follower.run_reliable storedCodec storedCodec_roundTrips storedCodec_selfDelimiting 0 true
    Sample.follower ?_ (by decide +kernel)
  intro step hstep
  simp only [Sample.follower, List.mem_cons, List.not_mem_nil, or_false] at hstep
  obtain rfl | rfl | rfl | rfl | rfl := hstep
  all_goals simp [FollowerStep.faultless, LogStep.faultless, LogStep.keepsSidecar,
    LogCall.faultless, Sample.storage]

end Cdesktop.ExecutionLog
