import Mathlib.Data.List.Basic
import Mathlib.Data.UInt

/-! Messages on the data channel: cut into chunks, and put together again. -/

namespace Cdesktop.Fragment
set_option autoImplicit true

def chunkPayloadSize : Nat := 60 * 1024

/-- The default limit of SCTP for a message of the channel. -/
def sctpMaxMessageSize : Nat := 65536

def bitfieldMore : UInt8 := 0b00000110

def bitfieldEnd : UInt8 := 0b00000111

/-- The pieces of a list, all as long as the size but the last. -/
@[simp] def chunks (size : Nat) : List α → List (List α)
  | [] => []
  | x :: xs => (x :: xs.take (size - 1)) :: chunks size (xs.drop (size - 1))
termination_by data => data.length
decreasing_by
  rw [List.length_drop, List.length_cons]
  omega

def fragment (data : List UInt8) : List (List UInt8) :=
  if data.length ≤ chunkPayloadSize then [bitfieldEnd :: data]
  else
    let pieces := chunks chunkPayloadSize data
    let lastIdx := pieces.length - 1
    pieces.mapIdx fun i payload => (if i = lastIdx then bitfieldEnd else bitfieldMore) :: payload

structure Defragmenter where
  buffer : List UInt8

def Defragmenter.new : Defragmenter := { buffer := [] }

/-- The message, where the chunk is the last one of it. -/
def Defragmenter.process (d : Defragmenter) :
    List UInt8 → Option (List UInt8) × Defragmenter
  | [] => (none, d)
  | header :: payload =>
    let isEnd : Bool := header &&& 1 ≠ 0
    if d.buffer.isEmpty ∧ isEnd then (some payload, d)
    else
      let buffer := d.buffer ++ payload
      if isEnd then (some buffer, { buffer := [] }) else (none, { buffer := buffer })

def Defragmenter.feed (d : Defragmenter) : List (List UInt8) → List (List UInt8) × Defragmenter
  | [] => ([], d)
  | chunk :: rest =>
    let read := d.process chunk
    (read.1.toList ++ (read.2.feed rest).1, (read.2.feed rest).2)

def Defragmenter.answers (d : Defragmenter) : List (List UInt8) → List (Option (List UInt8))
  | [] => []
  | chunk :: rest => (d.process chunk).1 :: (d.process chunk).2.answers rest

theorem chunks_flatten (size : Nat) (data : List α) : (chunks size data).flatten = data := by
  induction data using chunks.induct size with
  | case1 =>
    rw [chunks]
    rfl
  | case2 x xs ih =>
    rw [chunks, List.flatten_cons, ih, List.cons_append, List.take_append_drop]

theorem chunks_ne_nil (size : Nat) (h : data ≠ []) : chunks size data ≠ [] := by
  intro hnil
  have hflatten := chunks_flatten size data
  rw [hnil] at hflatten
  exact h hflatten.symm

theorem length_of_mem_chunks (hsize : 0 < size) (h : piece ∈ chunks size data) :
    piece.length ≤ size := by
  induction data using chunks.induct size with
  | case1 =>
    rw [chunks] at h
    exact absurd h List.not_mem_nil
  | case2 x xs ih =>
    rw [chunks] at h
    cases h with
    | head =>
      rw [List.length_cons]
      have htake := List.length_take_le (size - 1) xs
      omega
    | tail _ h => exact ih h

variable (d : Defragmenter) (pieces : List (List UInt8))

theorem mapIdx_headers (last : List UInt8) :
    ((pieces ++ [last]).mapIdx fun i payload =>
      (if i = (pieces ++ [last]).length - 1 then bitfieldEnd else bitfieldMore) :: payload) =
      pieces.map (bitfieldMore :: ·) ++ [bitfieldEnd :: last] := by
  have hlength : (pieces ++ [last]).length - 1 = pieces.length := by
    rw [List.length_append, List.length_singleton, Nat.add_sub_cancel]
  rw [hlength, List.mapIdx_concat, if_pos rfl, List.append_left_inj]
  apply List.ext_getElem
  · rw [List.length_mapIdx, List.length_map]
  · intro i hi _
    rw [List.length_mapIdx] at hi
    rw [List.getElem_mapIdx, List.getElem_map, if_neg (Nat.ne_of_lt hi)]

theorem fragment_eq (data : List UInt8) :
    ∃ (pieces : List (List UInt8)) (last : List UInt8), fragment data = pieces.map (bitfieldMore :: ·) ++ [bitfieldEnd :: last] ∧
      pieces.flatten ++ last = data := by
  unfold fragment
  split
  · exact ⟨[], data, rfl, rfl⟩
  · next hlong =>
    have hne : data ≠ [] := by
      intro hnil
      rw [hnil] at hlong
      exact hlong (Nat.zero_le _)
    have hflatten := chunks_flatten chunkPayloadSize data
    obtain ⟨pieces, last, heq⟩ :=
      (List.eq_nil_or_concat _).resolve_left (chunks_ne_nil chunkPayloadSize hne)
    rw [heq, List.concat_eq_append] at hflatten ⊢
    rw [List.flatten_append, List.flatten_singleton] at hflatten
    exact ⟨pieces, last, mapIdx_headers pieces last, hflatten⟩

theorem fragment_ne_nil (data : List UInt8) : fragment data ≠ [] := by
  obtain ⟨pieces, last, heq, _⟩ := fragment_eq data
  rw [heq]
  exact List.concat_ne_nil _ _

theorem fragment_long (h : chunkPayloadSize < data.length) :
    ∃ payload next rest, fragment data = (bitfieldMore :: payload) :: next :: rest ∧
      payload ≠ [] := by
  unfold fragment
  rw [if_neg (Nat.not_le.mpr h)]
  cases data with
  | nil => exact absurd h (Nat.not_lt_zero _)
  | cons byte bytes =>
    have hdrop : bytes.drop (chunkPayloadSize - 1) ≠ [] := by
      intro hnil
      have hlength := List.drop_eq_nil_iff.mp hnil
      change 61440 < bytes.length + 1 at h
      change bytes.length ≤ 61439 at hlength
      omega
    obtain ⟨next, rest, hrest⟩ := List.exists_cons_of_ne_nil (chunks_ne_nil chunkPayloadSize hdrop)
    rw [chunks, hrest]
    dsimp only
    rw [List.length_cons, List.length_cons, Nat.add_sub_cancel, List.mapIdx_cons,
      List.mapIdx_cons, if_neg (Nat.succ_ne_zero _).symm]
    exact ⟨_, _, _, rfl, List.cons_ne_nil _ _⟩

theorem length_of_mem_fragment (h : chunk ∈ fragment data) :
    chunk.length ≤ 1 + chunkPayloadSize := by
  unfold fragment at h
  split at h
  · next hshort =>
    rw [List.mem_singleton.mp h, List.length_cons]
    omega
  · obtain ⟨i, hi, hchunk⟩ := List.mem_mapIdx.mp h
    have hsize : 0 < chunkPayloadSize := by decide
    have hpiece := length_of_mem_chunks hsize (List.getElem_mem hi)
    rw [← hchunk, List.length_cons]
    omega

namespace Defragmenter

theorem process_more (payload : List UInt8) :
    d.process (bitfieldMore :: payload) = (none, ⟨d.buffer ++ payload⟩) := by
  unfold process
  dsimp only
  have hmore : (bitfieldMore &&& 1 ≠ 0 : Bool) = false := by decide
  rw [hmore, if_neg (fun h => Bool.false_ne_true h.2)]
  rfl

theorem process_end (payload : List UInt8) :
    d.process (bitfieldEnd :: payload) = (some (d.buffer ++ payload), .new) := by
  obtain ⟨buffer⟩ := d
  unfold process bitfieldEnd
  cases buffer with
  | nil => rfl
  | cons byte bytes => rfl

theorem feed_append (first later : List (List UInt8)) :
    d.feed (first ++ later) =
      ((d.feed first).1 ++ ((d.feed first).2.feed later).1, ((d.feed first).2.feed later).2) := by
  induction first generalizing d with
  | nil => rfl
  | cons chunk rest ih =>
    rw [List.cons_append, feed, ih, feed, ← List.append_assoc]

theorem feed_more :
    d.feed (pieces.map (bitfieldMore :: ·)) = ([], ⟨d.buffer ++ pieces.flatten⟩) := by
  induction pieces generalizing d with
  | nil =>
    rw [List.flatten_nil, List.append_nil]
    rfl
  | cons payload pieces ih =>
    rw [List.map_cons, feed, process_more, ih, List.flatten_cons, List.append_assoc]
    rfl

theorem feed_fragment (data : List UInt8) :
    new.feed (fragment data) = ([data], new) := by
  obtain ⟨pieces, last, heq, hdata⟩ := fragment_eq data
  rw [heq, feed_append, feed_more, feed, process_end]
  change ([] ++ [[] ++ pieces.flatten ++ last], new) = _
  rw [List.nil_append, List.nil_append, hdata]

theorem answers_append (first later : List (List UInt8)) :
    d.answers (first ++ later) = d.answers first ++ (d.feed first).2.answers later := by
  induction first generalizing d with
  | nil => rfl
  | cons chunk rest ih =>
    rw [List.cons_append, answers, ih]
    rfl

theorem answers_more :
    d.answers (pieces.map (bitfieldMore :: ·)) = List.replicate pieces.length none := by
  induction pieces generalizing d with
  | nil => rfl
  | cons payload pieces ih =>
    rw [List.map_cons, answers, process_more, ih]
    rfl

theorem answers_fragment (data : List UInt8) :
    new.answers (fragment data) =
      List.replicate ((fragment data).length - 1) none ++ [some data] := by
  obtain ⟨pieces, last, heq, hdata⟩ := fragment_eq data
  rw [heq, answers_append, answers_more, feed_more, List.length_append, List.length_map,
    List.length_singleton, Nat.add_sub_cancel, answers, process_end]
  change _ ++ [some ([] ++ pieces.flatten ++ last)] = _
  rw [List.nil_append, hdata]

theorem feed_part (h : done ++ rest = fragment data) (hrest : rest ≠ []) :
    (new.feed done).1 = [] := by
  obtain ⟨pieces, last, heq, _⟩ := fragment_eq data
  obtain ⟨rest, chunk, hconcat⟩ := (List.eq_nil_or_concat rest).resolve_left hrest
  rw [heq, hconcat, List.concat_eq_append, ← List.append_assoc] at h
  have hmore := (List.append_inj' h rfl).1
  obtain ⟨done', rest', _, hdone, _⟩ := List.append_eq_map_iff.mp hmore
  rw [← hdone, feed_more]

/-- The chunks of one message after another are the messages again, each at its last chunk and
with nothing left over, and the channel takes every chunk. -/
theorem feed_fragments (messages : List (List UInt8)) :
    new.feed (messages.flatMap fragment) = (messages, new) ∧
      new.answers (messages.flatMap fragment) =
        messages.flatMap (fun data =>
          List.replicate ((fragment data).length - 1) none ++ [some data]) ∧
      ∀ chunk ∈ messages.flatMap fragment, chunk.length ≤ sctpMaxMessageSize := by
  induction messages with
  | nil => exact ⟨rfl, rfl, nofun⟩
  | cons data messages ih =>
    obtain ⟨hfeed, hanswers, hlength⟩ := ih
    rw [List.flatMap_cons, feed_append, answers_append, feed_fragment, hfeed, hanswers,
      answers_fragment]
    apply And.intro rfl
    apply And.intro rfl
    intro chunk hchunk
    cases List.mem_append.mp hchunk with
    | inl hchunk =>
      have hbound := length_of_mem_fragment hchunk
      change chunk.length ≤ 61441 at hbound
      change chunk.length ≤ 65536
      omega
    | inr hchunk => exact hlength chunk hchunk

end Defragmenter

end Cdesktop.Fragment
