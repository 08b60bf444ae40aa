import Cdesktop.Bytes
import Cdesktop.Utf8

/-! The output of a process, read as text in parts. -/

namespace Cdesktop.StreamLines
set_option autoImplicit true

inductive ErrorKind where
  | invalidData
  | other

structure IoError where
  kind : ErrorKind
  message : String

def notUtf8 : IoError :=
  ⟨.invalidData, "native output is not valid UTF-8; recording incomplete"⟩

/-- The state of the unfolding, with what the stream still gives. -/
structure Utf8Chunks where
  stream : List (Except IoError (List UInt8))
  pending : List UInt8
  ended : Bool

/-- What one turn of the loop does. -/
inductive Turn where
  | yield (text : List UInt8) (next : Utf8Chunks)
  | read (next : Utf8Chunks)
  | fail (error : IoError)
  | finish

/-- The end of the loop's body. -/
def Utf8Chunks.advance (s : Utf8Chunks) : Turn :=
  if s.ended then .finish
  else match s.stream with
    | [] => .read { s with ended := true }
    | .error error :: _ => .fail error
    | .ok bytes :: stream => .read { s with stream := stream, pending := s.pending ++ bytes }

def Utf8Chunks.turn (s : Utf8Chunks) : Turn :=
  if s.pending = [] then s.advance
  else match Utf8.fromUtf8 s.pending with
    | none => .yield s.pending { s with pending := [] }
    | some error =>
      if 0 < error.validUpTo then
        .yield (s.pending.take error.validUpTo)
          { s with pending := s.pending.drop error.validUpTo }
      else if error.errorLen.isSome ∨ s.ended then .fail notUtf8
      -- At most three bytes await the next read.
      else s.advance

/-- What happens while the stream is polled to its end. -/
inductive Event where
  | item (result : Except IoError String)
  /-- The source is asked for more with these bytes held back. -/
  | await (pending : List UInt8)
  | panicked

def Event.item? : Event → Option (Except IoError String)
  | .item result => some result
  | _ => none

def Event.bytes : Event → List UInt8
  | .item (.ok text) => utf8 text
  | _ => []

def Event.isAwait : Event → Bool
  | .await _ => true
  | _ => false

variable {s : Utf8Chunks}

theorem Utf8Chunks.advance_ne_yield : s.advance ≠ .yield text next := by
  unfold advance
  split
  · exact nofun
  · split <;> exact nofun

/-- A part of the output is a text that the pending bytes begin with. -/
theorem Utf8Chunks.turn_yield (h : s.turn = .yield text next) :
    ∃ chars tail, s.pending = Utf8.encode chars ++ tail ∧ Utf8.encode chars ≠ [] ∧
      text = Utf8.encode chars ∧ next = { s with pending := tail } := by
  unfold turn at h
  split at h
  · exact absurd h advance_ne_yield
  next hpending =>
  obtain ⟨chars, htext, hnone⟩ | ⟨chars, tail, errorLen, htext, -, -, hsome, -⟩ :=
    Utf8.fromUtf8_cases s.pending
  · rw [hnone] at h
    cases h
    rw [htext] at hpending ⊢
    exact ⟨chars, [], (List.append_nil _).symm, hpending, rfl, rfl⟩
  · rw [hsome] at h
    dsimp only at h
    split at h
    · next hpos =>
      cases h
      rw [htext, List.take_left, List.drop_left]
      exact ⟨chars, tail, rfl, List.ne_nil_of_length_pos hpos, rfl, rfl⟩
    · split at h
      · exact nomatch h
      · exact absurd h advance_ne_yield

theorem Utf8Chunks.advance_read (h : s.advance = .read next) :
    s.ended = false ∧ (s.stream = [] ∧ next = { s with ended := true } ∨
      ∃ bytes stream, s.stream = .ok bytes :: stream ∧
        next = { s with stream := stream, pending := s.pending ++ bytes }) := by
  unfold advance at h
  split at h
  · exact nomatch h
  next hended =>
  apply And.intro (Bool.eq_false_iff.mpr hended)
  split at h
  · next hstream =>
    cases h
    exact .inl ⟨hstream, rfl⟩
  · exact nomatch h
  · next bytes stream hstream =>
    cases h
    exact .inr ⟨bytes, stream, hstream, rfl⟩

theorem Utf8Chunks.turn_read (h : s.turn = .read next) :
    s.advance = .read next ∧ s.pending.length ≤ 3 := by
  unfold turn at h
  split at h
  · next hpending =>
    rw [hpending]
    exact ⟨h, Nat.zero_le _⟩
  obtain ⟨chars, -, hnone⟩ | ⟨chars, tail, errorLen, htext, -, -, hsome, hcut, -⟩ :=
    Utf8.fromUtf8_cases s.pending
  · rw [hnone] at h
    exact nomatch h
  · rw [hsome] at h
    dsimp only at h
    split at h
    · exact nomatch h
    next hzero =>
    split at h
    · exact nomatch h
    next hfail =>
    have hchars := Utf8.encode_eq_nil (List.eq_nil_of_length_eq_zero (Nat.eq_zero_of_not_pos hzero))
    have herror : errorLen = none := Option.not_isSome_iff_eq_none.mp fun h => hfail (.inl h)
    rw [htext, hchars]
    exact ⟨h, hcut herror⟩

def Utf8Chunks.log (s : Utf8Chunks) : List Event :=
  match _h : s.turn with
  | .yield bytes next =>
    match fromUtf8 bytes with
    | some text => .item (.ok text) :: next.log
    | none => [.panicked]
  | .read next => .await s.pending :: next.log
  | .fail error => [.item (.error error)]
  | .finish => []
termination_by (s.stream.length + if s.ended then 0 else 1, s.pending.length)
decreasing_by
  · obtain ⟨chars, tail, htext, hne, -, rfl⟩ := turn_yield _h
    apply Prod.Lex.right
    rw [htext, List.length_append]
    exact Nat.lt_add_of_pos_left (List.length_pos_of_ne_nil hne)
  · obtain ⟨hended, ⟨-, rfl⟩ | ⟨bytes, stream, hstream, rfl⟩⟩ := advance_read (turn_read _h).1
    · apply Prod.Lex.left
      rw [hended]
      exact Nat.lt_succ_self _
    · apply Prod.Lex.left
      rw [hstream, List.length_cons]
      exact Nat.add_lt_add_right (Nat.lt_succ_self _) _

def Utf8Chunks.new (stream : List (Except IoError (List UInt8))) : Utf8Chunks :=
  { stream := stream, pending := [], ended := false }

def utf8Chunks (stream : List (Except IoError (List UInt8))) : List (Except IoError String) :=
  (Utf8Chunks.new stream).log.filterMap Event.item?

/-- What a reader gets: the parts together, and the errors. -/
def transcript (items : List (Except IoError String)) : String × List IoError :=
  (String.join (items.filterMap Except.toOption),
    items.filterMap fun
      | .ok _ => none
      | .error error => some error)

/-- The longest text that the bytes begin with. -/
def LongestText (bytes : List UInt8) (text : String) : Prop :=
  utf8 text <+: bytes ∧ ∀ text', utf8 text' <+: bytes → utf8 text' <+: utf8 text

theorem utf8_ofList (chars : List Char) : utf8 (String.ofList chars) = Utf8.encode chars := by
  rw [utf8, String.toByteArray_ofList]
  exact List.toList_data_toByteArray

theorem exists_encode (text : String) : ∃ chars, utf8 text = Utf8.encode chars := by
  apply Exists.intro text.toList
  rw [← utf8_ofList, String.ofList_toList]

theorem utf8_join (texts : List String) : utf8 (String.join texts) = texts.flatMap utf8 := by
  induction texts with
  | nil => rfl
  | cons text texts ih =>
    rw [String.join_cons, List.flatMap_cons, ← ih, utf8, String.toByteArray_append,
      ByteArray.data_append, Array.toList_append]
    rfl

theorem Utf8Chunks.log_yield (h : s.turn = .yield (utf8 text) next) :
    s.log = .item (.ok text) :: next.log := by
  rw [log]
  split
  · next bytes next' h' =>
    rw [h] at h'
    cases h'
    rw [fromUtf8_utf8]
  all_goals
    next h' =>
    rw [h] at h'
    exact nomatch h'

theorem Utf8Chunks.log_read (h : s.turn = .read next) :
    s.log = .await s.pending :: next.log := by
  rw [log]
  split
  case h_2 next' h' =>
    rw [h] at h'
    cases h'
    rfl
  all_goals
    next h' =>
    rw [h] at h'
    exact nomatch h'

theorem Utf8Chunks.log_fail (h : s.turn = .fail error) :
    s.log = [.item (.error error)] := by
  rw [log]
  split
  case h_3 error' h' =>
    rw [h] at h'
    cases h'
    rfl
  all_goals
    next h' =>
    rw [h] at h'
    exact nomatch h'

theorem Utf8Chunks.log_finish (h : s.turn = .finish) : s.log = [] := by
  rw [log]
  split
  case h_4 => rfl
  all_goals
    next h' =>
    rw [h] at h'
    exact nomatch h'

/-- The output of the process, nothing of which is an error, as far as it is still to come. -/
structure Utf8Chunks.Gives (s : Utf8Chunks) (chunks : List (List UInt8)) : Prop where
  stream : s.stream = chunks.map .ok
  ended : s.ended = true → chunks = []

/-- The bytes that are not a text come to an error. -/
theorem Utf8Chunks.turn_fail (hs : s.Gives chunks) (h : s.turn = .fail error) :
    error = notUtf8 ∧ s.pending ++ chunks.flatten ≠ [] ∧
      Utf8.Stuck (s.pending ++ chunks.flatten) := by
  have hadvance : s.advance ≠ .fail error := by
    unfold advance
    split
    · exact nofun
    · rw [hs.stream]
      cases chunks <;> exact nofun
  unfold turn at h
  split at h
  · exact absurd h hadvance
  obtain ⟨chars, -, hnone⟩ | ⟨chars, tail, errorLen, htext, hne, hstuck, hsome, -, hlater⟩ :=
    Utf8.fromUtf8_cases s.pending
  · rw [hnone] at h
    exact nomatch h
  · rw [hsome] at h
    dsimp only at h
    split at h
    · exact nomatch h
    next hzero =>
    have hchars := Utf8.encode_eq_nil (List.eq_nil_of_length_eq_zero (Nat.eq_zero_of_not_pos hzero))
    rw [hchars, Utf8.encode_nil, List.nil_append] at htext
    split at h
    · next hfail =>
      cases h
      rw [htext]
      apply And.intro rfl
      apply And.intro fun h => hne (List.append_eq_nil_iff.mp h).1
      cases hfail with
      | inl hinvalid => exact hlater hinvalid _
      | inr hended =>
        rw [hs.ended hended, List.flatten_nil, List.append_nil]
        exact hstuck
    · exact absurd h hadvance

theorem Utf8Chunks.turn_finish (hs : s.Gives chunks) (h : s.turn = .finish) :
    s.pending = [] ∧ chunks = [] := by
  have hadvance (h : s.advance = .finish) : s.ended = true := by
    unfold advance at h
    split at h
    · next hended => exact hended
    · split at h <;> exact nomatch h
  unfold turn at h
  split at h
  · next hpending => exact ⟨hpending, hs.ended (hadvance h)⟩
  split at h
  · exact nomatch h
  split at h
  · exact nomatch h
  split at h
  · exact nomatch h
  · next hfail => exact absurd (.inr (hadvance h)) hfail

theorem Utf8Chunks.Gives.rest (hs : s.Gives chunks) (tail : List UInt8) :
    Gives { s with pending := tail } chunks := ⟨hs.stream, hs.ended⟩

theorem Utf8Chunks.Gives.read (hs : s.Gives chunks) (h : s.turn = .read next) :
    ∃ chunks', next.Gives chunks' ∧
      next.pending ++ chunks'.flatten = s.pending ++ chunks.flatten ∧
      ∀ n, next.pending ++ (chunks'.take n).flatten =
        s.pending ++ (chunks.take (n + 1)).flatten := by
  obtain ⟨-, ⟨hstream, rfl⟩ | ⟨bytes, stream, hstream, rfl⟩⟩ := advance_read (turn_read h).1
  · have hchunks : chunks = [] := List.map_eq_nil_iff.mp (hs.stream.symm.trans hstream)
    subst hchunks
    have hgives : Gives { s with ended := true } [] := ⟨hstream, fun _ => rfl⟩
    exact ⟨[], hgives, rfl, fun n => by rw [List.take_nil, List.take_nil]⟩
  · cases chunks with
    | nil => exact nomatch hstream.symm.trans hs.stream
    | cons chunk chunks =>
      have heq := hstream.symm.trans hs.stream
      rw [List.map_cons] at heq
      obtain ⟨hbytes, hrest⟩ := List.cons.inj heq
      obtain rfl : bytes = chunk := Except.ok.inj hbytes
      have hgives : Gives { s with stream := stream, pending := s.pending ++ bytes } chunks :=
        ⟨hrest, fun hended => nomatch hs.ended hended⟩
      exact ⟨chunks, hgives, List.append_assoc .., fun n => List.append_assoc ..⟩

/-- What a state of the loop makes of the output that is to come. -/
structure Utf8Chunks.Reads (s : Utf8Chunks) (chunks : List (List UInt8)) (texts : List String)
    (tail : List UInt8) : Prop where
  items : s.log.filterMap Event.item? =
    texts.map .ok ++ if tail = [] then [] else [.error notUtf8]
  bytes : s.pending ++ chunks.flatten = texts.flatMap utf8 ++ tail
  stuck : Utf8.Stuck tail
  whole : Event.panicked ∉ s.log

theorem Utf8Chunks.Gives.reads (hs : s.Gives chunks) :
    ∃ texts tail, s.Reads chunks texts tail := by
  induction s using log.induct generalizing chunks with
  | case1 s bytes next hturn text htext ih =>
    obtain ⟨chars, rest, hpending, -, rfl, rfl⟩ := turn_yield hturn
    rw [← utf8_ofList, fromUtf8_utf8] at htext
    obtain rfl := Option.some.inj htext
    rw [← utf8_ofList] at hturn hpending
    obtain ⟨texts, tail, hitems, hbytes, hstuck, hwhole⟩ := ih (hs.rest rest)
    apply Exists.intro (String.ofList chars :: texts)
    apply Exists.intro tail
    constructor
    · rw [log_yield hturn]
      exact congrArg (Except.ok _ :: ·) hitems
    · rw [hpending, List.append_assoc, hbytes, List.flatMap_cons, List.append_assoc]
    · exact hstuck
    · rw [log_yield hturn]
      exact fun h => (List.mem_cons.mp h).elim nofun hwhole
  | case2 s bytes next hturn htext =>
    obtain ⟨chars, rest, -, -, rfl, -⟩ := turn_yield hturn
    rw [← utf8_ofList, fromUtf8_utf8] at htext
    exact nomatch htext
  | case3 s next hturn ih =>
    obtain ⟨chunks', hnext, hflatten, -⟩ := hs.read hturn
    obtain ⟨texts, tail, hitems, hbytes, hstuck, hwhole⟩ := ih hnext
    apply Exists.intro texts
    apply Exists.intro tail
    constructor
    · rw [log_read hturn]
      exact hitems
    · rw [← hflatten, hbytes]
    · exact hstuck
    · rw [log_read hturn]
      exact fun h => (List.mem_cons.mp h).elim nofun hwhole
  | case4 s error hturn =>
    obtain ⟨rfl, hne, hstuck⟩ := turn_fail hs hturn
    apply Exists.intro []
    apply Exists.intro (s.pending ++ chunks.flatten)
    constructor
    · rw [log_fail hturn, if_neg hne]
      rfl
    · rfl
    · exact hstuck
    · rw [log_fail hturn]
      exact nofun
  | case5 s hturn =>
    obtain ⟨hpending, rfl⟩ := turn_finish hs hturn
    apply Exists.intro []
    apply Exists.intro []
    constructor
    · rw [log_finish hturn]
      rfl
    · rw [hpending]
      rfl
    · trivial
    · rw [log_finish hturn]
      exact nofun

/-- What is held back is what has come of the output and is no text yet. -/
theorem Utf8Chunks.Gives.held {back : List UInt8} (hs : s.Gives chunks)
    (h : s.log = before ++ .await back :: after) :
    back.length ≤ 3 ∧ before.flatMap Event.bytes ++ back =
      s.pending ++ (chunks.take (before.countP Event.isAwait)).flatten := by
  induction s using log.induct generalizing chunks before with
  | case1 s bytes next hturn text htext ih =>
    obtain ⟨chars, rest, hpending, -, rfl, rfl⟩ := turn_yield hturn
    rw [← utf8_ofList, fromUtf8_utf8] at htext
    obtain rfl := Option.some.inj htext
    rw [← utf8_ofList] at hturn hpending
    rw [log_yield hturn] at h
    cases before with
    | nil => exact nomatch h
    | cons event before =>
      obtain ⟨rfl, hlog⟩ := List.cons.inj h
      obtain ⟨hlength, hbytes⟩ := ih (hs.rest rest) hlog
      apply And.intro hlength
      rw [List.flatMap_cons, List.append_assoc, hbytes, hpending, List.append_assoc]
      rfl
  | case2 s bytes next hturn htext =>
    obtain ⟨chars, rest, -, -, rfl, -⟩ := turn_yield hturn
    rw [← utf8_ofList, fromUtf8_utf8] at htext
    exact nomatch htext
  | case3 s next hturn ih =>
    obtain ⟨chunks', hnext, -, htake⟩ := hs.read hturn
    rw [log_read hturn] at h
    cases before with
    | nil =>
      obtain ⟨hback, -⟩ := List.cons.inj h
      obtain rfl := Event.await.inj hback
      apply And.intro (turn_read hturn).2
      exact (List.append_nil _).symm
    | cons event before =>
      obtain ⟨rfl, hlog⟩ := List.cons.inj h
      obtain ⟨hlength, hbytes⟩ := ih hnext hlog
      apply And.intro hlength
      rw [List.flatMap_cons, List.append_assoc, hbytes, htake, List.countP_cons_of_pos rfl]
      rfl
  | case4 s error hturn =>
    rw [log_fail hturn] at h
    cases before with
    | nil => exact nomatch h
    | cons event before =>
      have hrest := (List.cons.inj h).2
      exact absurd hrest.symm (List.append_ne_nil_of_right_ne_nil _ (List.cons_ne_nil _ _))
  | case5 s hturn =>
    rw [log_finish hturn] at h
    exact absurd h.symm (List.append_ne_nil_of_right_ne_nil _ (List.cons_ne_nil _ _))

theorem longestText_of_stuck (h : bytes = utf8 text ++ tail) (hstuck : Utf8.Stuck tail) :
    LongestText bytes text := by
  rw [h]
  apply And.intro (List.prefix_append _ _)
  intro text' hbegins
  obtain ⟨chars, hchars⟩ := exists_encode text
  obtain ⟨chars', hchars'⟩ := exists_encode text'
  rw [hchars, hchars'] at hbegins ⊢
  obtain ⟨rest, rfl⟩ := Utf8.prefix_of_stuck hstuck hbegins
  rw [Utf8.encode_append]
  exact List.prefix_append _ _

theorem LongestText.unique (h : LongestText bytes text) (h' : LongestText bytes text') :
    text = text' := by
  apply utf8_injective
  exact (h'.2 text h.1).eq_of_length_le (h.2 text' h'.1).length_le

theorem transcript_append (texts : List String) (p : Prop) [Decidable p] (error : IoError) :
    transcript (texts.map .ok ++ if p then [] else [.error error]) =
      (String.join texts, if p then [] else [error]) := by
  induction texts with
  | nil => split <;> rfl
  | cons text texts ih =>
    obtain ⟨hjoin, herrors⟩ := Prod.mk.inj ih
    apply Prod.ext
    · rw [String.join_cons, ← hjoin]
      exact String.join_cons
    · exact herrors

theorem Utf8Chunks.new_gives (chunks : List (List UInt8)) : (new (chunks.map .ok)).Gives chunks :=
  ⟨rfl, nofun⟩

theorem exists_texts (chunks : List (List UInt8)) : ∃ texts,
    LongestText chunks.flatten (String.join texts) ∧
    utf8Chunks (chunks.map .ok) = texts.map .ok ++
      (if utf8 (String.join texts) = chunks.flatten then [] else [.error notUtf8]) := by
  obtain ⟨texts, tail, hitems, hbytes, hstuck, -⟩ := (Utf8Chunks.new_gives chunks).reads
  change [] ++ chunks.flatten = _ at hbytes
  rw [List.nil_append, ← utf8_join] at hbytes
  apply Exists.intro texts
  apply And.intro (longestText_of_stuck hbytes hstuck)
  rw [utf8Chunks, hitems]
  by_cases htail : tail = []
  · rw [if_pos htail, if_pos (by rw [hbytes, htail, List.append_nil])]
  · rw [if_neg htail, if_neg fun heq => htail (List.self_eq_append_right.mp (heq.trans hbytes))]

theorem LongestText.eq_iff (h : LongestText bytes text) :
    utf8 text = bytes ↔ ∃ text', utf8 text' = bytes := by
  constructor
  · exact fun heq => ⟨text, heq⟩
  · intro ⟨text', heq⟩
    have hbegins := h.2 text' (heq ▸ List.prefix_refl _)
    rw [heq] at hbegins
    exact h.1.eq_of_length_le hbegins.length_le

/-- The output is read as the longest text it begins with, however it is cut: with an error behind
it where more comes, and with three bytes held back at most. -/
theorem utf8Chunks_longest (chunks : List (List UInt8)) : ∃ texts,
    LongestText chunks.flatten (String.join texts) ∧
    utf8Chunks (chunks.map .ok) = texts.map .ok ++
      (if utf8 (String.join texts) = chunks.flatten then [] else [.error notUtf8]) ∧
    (utf8 (String.join texts) = chunks.flatten ↔ ∃ text, utf8 text = chunks.flatten) ∧
    (∀ chunks' : List (List UInt8), chunks'.flatten = chunks.flatten →
      transcript (utf8Chunks (chunks'.map .ok)) = transcript (utf8Chunks (chunks.map .ok))) ∧
    (∀ before back after,
      (Utf8Chunks.new (chunks.map .ok)).log = before ++ .await back :: after →
        back.length ≤ 3 ∧ before.flatMap Event.bytes ++ back =
          (chunks.take (before.countP Event.isAwait)).flatten) ∧
    Event.panicked ∉ (Utf8Chunks.new (chunks.map .ok)).log := by
  obtain ⟨texts, hlongest, hitems⟩ := exists_texts chunks
  have hwhole : Event.panicked ∉ (Utf8Chunks.new (chunks.map .ok)).log := by
    obtain ⟨_, _, hreads⟩ := (Utf8Chunks.new_gives chunks).reads
    exact hreads.whole
  have hcut (chunks' : List (List UInt8)) (hflatten : chunks'.flatten = chunks.flatten) :
      transcript (utf8Chunks (chunks'.map .ok)) = transcript (utf8Chunks (chunks.map .ok)) := by
    obtain ⟨texts', hlongest', hitems'⟩ := exists_texts chunks'
    rw [hflatten] at hlongest' hitems'
    rw [hitems, hitems', transcript_append, transcript_append, hlongest.unique hlongest']
  have hheld (before back after)
      (hlog : (Utf8Chunks.new (chunks.map .ok)).log = before ++ .await back :: after) :=
    (Utf8Chunks.new_gives chunks).held hlog
  exact ⟨texts, hlongest, hitems, hlongest.eq_iff, hcut, hheld, hwhole⟩

end Cdesktop.StreamLines
