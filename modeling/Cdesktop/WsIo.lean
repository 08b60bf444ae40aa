import Mathlib.Data.List.Basic

/-! A stream of bytes over the messages of a socket. -/

namespace Cdesktop.WsIo
set_option autoImplicit true

inductive WsIoReadMessage where
  | data (data : List UInt8)
  | skip
  | eof

/-- What a poll gives, an error as its text. -/
inductive Poll (α : Type) where
  | pending
  | ready (value : α)
  | error (error : String)

/-- `poll_read`: what it puts into a buffer with so much room, and what is left of the read buffer
and of the socket's answers, which end with the stream. -/
def pollRead (readMessage : M → WsIoReadMessage) (room : Nat) :
    List UInt8 → List (Poll M) → Poll (List UInt8) × List UInt8 × List (Poll M)
  | byte :: readBuf, answers =>
    (.ready ((byte :: readBuf).take room), (byte :: readBuf).drop room, answers)
  | [], [] => (.ready [], [], [])
  | [], .pending :: answers => (.pending, [], answers)
  | [], .error error :: answers => (.error error, [], answers)
  | [], .ready message :: answers =>
    match readMessage message with
    | .data data => pollRead readMessage room data answers
    | .skip => pollRead readMessage room [] answers
    | .eof => (.ready [], [], answers)

/-- What the sink answers to `poll_ready`, `start_send` and `poll_flush`. -/
structure SinkAnswers where
  ready : Poll Unit
  send : Except String Unit
  flush : Poll Unit

/-- The end of `poll_write`: the result, and whether the flush is still pending. -/
def flushWrite (buf : List UInt8) : Poll Unit → Poll Nat × Bool
  | .pending => (.pending, true)
  | .error error => (.error error, true)
  | .ready () => (.ready buf.length, false)

/-- `poll_write`: the result, `flushing`, and the payload that the sink was handed. -/
def pollWrite (buf : List UInt8) (sink : SinkAnswers) (flushing : Bool) :
    Poll Nat × Bool × Option (List UInt8) :=
  if buf = [] then (.ready 0, flushing, none)
  else if flushing then
    let (result, flushing) := flushWrite buf sink.flush
    (result, flushing, none)
  else
    match sink.ready with
    | .pending => (.pending, false, none)
    | .error error => (.error error, false, none)
    | .ready () =>
      match sink.send with
      | .error error => (.error error, false, none)
      | .ok () =>
        let (result, flushing) := flushWrite buf sink.flush
        (result, flushing, some buf)

/-- `poll_flush`, and `poll_shutdown` with the answer to `poll_close` -/
def pollFlush (answer : Poll Unit) (flushing : Bool) : Poll Unit × Bool :=
  match answer with
  | .ready () => (.ready (), false)
  | .pending => (.pending, flushing)
  | .error error => (.error error, flushing)

inductive Call where
  | read (room : Nat)
  | write (buf : List UInt8) (sink : SinkAnswers)
  | flush (answer : Poll Unit)
  | shutdown (answer : Poll Unit)

/-- The stream with what the socket will answer, the payloads that the sink was handed, the bytes
that were reported as written, and what the reads gave, each with the room that it had. -/
structure WsMessageStreamIo (M : Type) where
  readBuf : List UInt8
  flushing : Bool
  answers : List (Poll M)
  handed : List (List UInt8)
  reported : List UInt8
  reads : List (Nat × Poll (List UInt8))

def WsMessageStreamIo.new (answers : List (Poll M)) : WsMessageStreamIo M :=
  { readBuf := []
    flushing := false
    answers
    handed := []
    reported := []
    reads := [] }

/-- The first bytes of the buffer, as many as were reported. -/
def written (buf : List UInt8) : Poll Nat → List UInt8
  | .ready n => buf.take n
  | .pending | .error _ => []

def WsMessageStreamIo.step (readMessage : M → WsIoReadMessage) (s : WsMessageStreamIo M) :
    Call → WsMessageStreamIo M
  | .read room =>
    let (result, readBuf, answers) := pollRead readMessage room s.readBuf s.answers
    { s with readBuf, answers, reads := s.reads ++ [(room, result)] }
  | .write buf sink =>
    let (result, flushing, payload) := pollWrite buf sink s.flushing
    { s with
      flushing
      handed := s.handed ++ payload.toList
      reported := s.reported ++ written buf result }
  | .flush answer => { s with flushing := (pollFlush answer s.flushing).2 }
  | .shutdown answer => { s with flushing := (pollFlush answer s.flushing).2 }

def WsMessageStreamIo.run (readMessage : M → WsIoReadMessage) (s : WsMessageStreamIo M)
    (calls : List Call) : WsMessageStreamIo M := calls.foldl (·.step readMessage) s

/-- The payloads before the first close. -/
def payloads (readMessage : M → WsIoReadMessage) : List (Poll M) → List UInt8
  | [] => []
  | .ready message :: answers =>
    match readMessage message with
    | .data data => data ++ payloads readMessage answers
    | .skip => payloads readMessage answers
    | .eof => []
  | .pending :: answers | .error _ :: answers => payloads readMessage answers

def Poll.bytes : Poll (List UInt8) → List UInt8
  | .ready bytes => bytes
  | .pending | .error _ => []

/-- A read that had room, and was told that nothing more comes. -/
def AtEnd (read : Nat × Poll (List UInt8)) : Prop := 0 < read.1 ∧ read.2 = .ready []

def weight (readMessage : M → WsIoReadMessage) : List (Poll M) → Nat
  | [] => 0
  | .ready message :: answers =>
    match readMessage message with
    | .data data => data.length + weight readMessage answers + 1
    | .skip | .eof => weight readMessage answers + 1
  | .pending :: answers | .error _ :: answers => weight readMessage answers + 1

/-- What the stream is for. -/
structure Faithful (readMessage : M → WsIoReadMessage) (answers : List (Poll M))
    (s : WsMessageStreamIo M) : Prop where
  writes : ∃ unreported, s.handed.flatten = s.reported ++ unreported ∧
    (unreported = [] ∨ s.handed.getLast? = some unreported)
  order : s.reads.flatMap (·.2.bytes) <+: payloads readMessage answers
  whole : (∃ read ∈ s.reads, AtEnd read) →
    s.reads.flatMap (·.2.bytes) = payloads readMessage answers
  forGood : s.reads.Pairwise fun read later => AtEnd read → later.2 = .ready []
  ends : weight readMessage answers < s.reads.countP (0 < ·.1) → ∃ read ∈ s.reads, AtEnd read

def Silent (readMessage : M → WsIoReadMessage) (answer : Poll M) : Prop :=
  ∃ message, answer = .ready message ∧
    (readMessage message = .skip ∨ readMessage message = .eof ∨ readMessage message = .data [])

/-- These answers give nothing after the first close, and do not make the reader wait. -/
def QuietAfterClose (readMessage : M → WsIoReadMessage) : List (Poll M) → Prop
  | [] => True
  | .ready message :: answers =>
    match readMessage message with
    | .eof => ∀ answer ∈ answers, Silent readMessage answer
    | .data _ | .skip => QuietAfterClose readMessage answers
  | .pending :: answers | .error _ :: answers => QuietAfterClose readMessage answers

/-- This holds of what comes before `rest`. -/
def UpTo (rest : List α) (p : List α → Prop) (answers : List α) : Prop :=
  ∀ come, come ++ rest = answers → p come

theorem UpTo.tail (h : UpTo rest p (answer :: answers)) :
    UpTo rest (fun come => p (answer :: come)) answers :=
  fun _ hcome => h _ (congrArg _ hcome)

def WsMessageStreamIo.unreported (s : WsMessageStreamIo M) : List UInt8 :=
  s.handed.flatten.drop s.reported.length

/-- A write that ends a pending one brings the same bytes, and none hands over a payload after one
that a flush or a shutdown ended before it was reported. -/
def WsMessageStreamIo.Orderly (s : WsMessageStreamIo M) : Call → Prop
  | .write buf sink =>
    if s.flushing then sink.flush = .ready () → buf = [] ∨ buf = s.unreported
    else sink.ready = .ready () → sink.send = .ok () → buf = [] ∨ s.unreported = []
  | .read _ | .flush _ | .shutdown _ => True

theorem unreported_eq {s : WsMessageStreamIo M} (h : s.handed.flatten = s.reported ++ rest) :
    s.unreported = rest := by
  rw [WsMessageStreamIo.unreported, h, List.drop_left]

theorem written_flushWrite (buf : List UInt8) (answer : Poll Unit) :
    written buf (flushWrite buf answer).1 = buf ∧ answer = .ready () ∨
      written buf (flushWrite buf answer).1 = [] := by
  cases answer with
  | ready => exact .inl ⟨List.take_length, rfl⟩
  | pending => exact .inr rfl
  | error => exact .inr rfl

/-- What a write hands over and what it reports: nothing, the end of a pending write, or a payload
that is reported at once or later. -/
theorem pollWrite_cases (h : pollWrite buf sink flushing = (result, flushing', payload)) :
    payload = none ∧ written buf result = [] ∨
      payload = none ∧ written buf result = buf ∧ flushing = true ∧ sink.flush = .ready () ∨
      payload = some buf ∧ (written buf result = buf ∨ written buf result = []) ∧
        flushing = false ∧ buf ≠ [] ∧ sink.ready = .ready () ∧ sink.send = .ok () := by
  have hflush := written_flushWrite buf sink.flush
  unfold pollWrite at h
  split at h
  next hempty =>
    cases h
    exact .inl ⟨rfl, by rw [hempty]; rfl⟩
  next hbuf =>
    split at h
    next hflushing =>
      cases h
      obtain ⟨hbytes, hanswer⟩ | hnone := hflush
      · exact .inr (.inl ⟨rfl, hbytes, hflushing, hanswer⟩)
      · exact .inl ⟨rfl, hnone⟩
    next hflushing =>
      split at h
      · cases h
        exact .inl ⟨rfl, rfl⟩
      · cases h
        exact .inl ⟨rfl, rfl⟩
      next hready =>
        split at h
        · cases h
          exact .inl ⟨rfl, rfl⟩
        next hsend =>
          cases h
          refine .inr (.inr ⟨rfl, hflush.imp_left And.left, ?_, hbuf, hready, hsend⟩)
          exact Bool.eq_false_iff.mpr hflushing

def Writes (s : WsMessageStreamIo M) : Prop :=
  ∃ unreported, s.handed.flatten = s.reported ++ unreported ∧
    (unreported = [] ∨ s.handed.getLast? = some unreported)

theorem step_writes {s : WsMessageStreamIo M} {call : Call} (h : Writes s)
    (horderly : s.Orderly call) : Writes (s.step readMessage call) := by
  cases call with
  | read | flush | shutdown => exact h
  | write buf sink =>
    obtain ⟨rest, hflatten, hlast⟩ := h
    have hrest := unreported_eq hflatten
    rw [WsMessageStreamIo.Orderly, hrest] at horderly
    rw [Writes, WsMessageStreamIo.step]
    generalize houtcome : pollWrite buf sink s.flushing = outcome
    obtain ⟨result, flushing, payload⟩ := outcome
    obtain ⟨rfl, hnone⟩ | ⟨rfl, hbytes, hflushing, hanswer⟩ |
      ⟨rfl, hbytes, hflushing, hbuf, hready, hsend⟩ := pollWrite_cases houtcome
    · refine ⟨rest, ?_, ?_⟩
      · simpa [hnone] using hflatten
      · simpa using hlast
    · rw [if_pos hflushing] at horderly
      obtain rfl | rfl := horderly hanswer
      · exact ⟨rest, by simpa [hbytes] using hflatten, by simpa using hlast⟩
      · exact ⟨[], by simpa [hbytes] using hflatten, .inl rfl⟩
    · rw [if_neg (by rw [hflushing]; nofun)] at horderly
      obtain rfl := (horderly hready hsend).resolve_left hbuf
      rw [List.append_nil] at hflatten
      obtain hbytes | hnone := hbytes
      · exact ⟨[], by simp [hbytes, hflatten], .inl rfl⟩
      · exact ⟨buf, by simp [hnone, hflatten], .inr (by simp)⟩

theorem passes_on {readMessage : M → WsIoReadMessage} {answers : List (Poll M)} (byte : UInt8)
    (readBuf : List UInt8) (hquiet : UpTo rest (QuietAfterClose readMessage) answers) :
    (Poll.ready ((byte :: readBuf).take room)).bytes ++
        ((byte :: readBuf).drop room ++ payloads readMessage answers) =
      byte :: readBuf ++ payloads readMessage answers ∧
    UpTo rest (QuietAfterClose readMessage) answers ∧
    ¬ AtEnd (room, .ready ((byte :: readBuf).take room)) := by
  refine ⟨?_, hquiet, ?_⟩
  · rw [Poll.bytes, ← List.append_assoc, List.take_append_drop]
  · rintro ⟨hroom, hempty⟩
    obtain hzero | hnil := List.take_eq_nil_iff.mp (Poll.ready.inj hempty)
    · exact Nat.ne_of_gt hroom hzero
    · cases hnil

/-- A read takes an answer, unless bytes are left of the one before. -/
theorem pollRead_rest (readMessage : M → WsIoReadMessage) (room : Nat) (readBuf : List UInt8)
    (answers : List (Poll M)) :
    readBuf ≠ [] ∧ (pollRead readMessage room readBuf answers).2.2 = answers ∨
      (pollRead readMessage room readBuf answers).2.2 <:+ answers.tail := by
  have hlater : ∀ {rest answers : List (Poll M)} {p : Prop},
      p ∧ rest = answers ∨ rest <:+ answers.tail → rest <:+ answers := fun h =>
    h.elim (fun hsame => hsame.2 ▸ List.suffix_rfl) (·.trans (List.tail_suffix _))
  fun_induction pollRead readMessage room readBuf answers with
  | case1 => exact .inl ⟨nofun, rfl⟩
  | case2 => exact .inr List.suffix_rfl
  | case3 => exact .inr List.suffix_rfl
  | case4 => exact .inr List.suffix_rfl
  | case5 => exact .inr (hlater ‹_›)
  | case6 => exact .inr (hlater ‹_›)
  | case7 => exact .inr List.suffix_rfl

theorem pollRead_cases (hquiet : UpTo rest (QuietAfterClose readMessage) answers)
    (h : pollRead readMessage room readBuf answers = (result, readBuf', answers')) :
    result.bytes ++ (readBuf' ++ payloads readMessage answers') =
        readBuf ++ payloads readMessage answers ∧
      UpTo rest (QuietAfterClose readMessage) answers' ∧ ¬ AtEnd (room, result) ∨
    result = .ready [] ∧ readBuf' = [] ∧
      UpTo rest (∀ answer ∈ ·, Silent readMessage answer) answers' ∧
      readBuf ++ payloads readMessage answers = [] := by
  fun_induction pollRead readMessage room readBuf answers with
  | case1 byte readBuf =>
    cases h
    exact .inl (passes_on byte readBuf hquiet)
  | case2 =>
    cases h
    refine .inr ⟨rfl, rfl, fun come hcome => ?_, rfl⟩
    rw [(List.append_eq_nil_iff.mp hcome).1]
    nofun
  | case3 =>
    cases h
    exact .inl ⟨rfl, hquiet.tail, nofun⟩
  | case4 =>
    cases h
    exact .inl ⟨rfl, hquiet.tail, nofun⟩
  | case5 message answers data hmessage ih =>
    replace hquiet := hquiet.tail
    simp only [QuietAfterClose, hmessage] at hquiet
    rw [payloads, hmessage]
    exact ih hquiet h
  | case6 message answers hmessage ih =>
    replace hquiet := hquiet.tail
    simp only [QuietAfterClose, hmessage] at hquiet
    rw [payloads, hmessage]
    exact ih hquiet h
  | case7 message answers hmessage =>
    replace hquiet := hquiet.tail
    simp only [QuietAfterClose, hmessage] at hquiet
    rw [payloads, hmessage]
    cases h
    exact .inr ⟨rfl, rfl, hquiet, rfl⟩

theorem pollRead_silent (hsilent : UpTo rest (∀ answer ∈ ·, Silent readMessage answer) answers)
    (h : pollRead readMessage room [] answers = (result, readBuf, answers'))
    (hrest : rest <:+ answers') : result = .ready [] ∧ readBuf = [] ∧
      UpTo rest (∀ answer ∈ ·, Silent readMessage answer) answers' := by
  induction answers with
  | nil =>
    cases h
    exact ⟨rfl, rfl, hsilent⟩
  | cons answer answers ih =>
    have htail := (pollRead_rest readMessage room [] (answer :: answers)).resolve_left (·.1 rfl)
    rw [h] at htail
    obtain ⟨come, hcome⟩ := hrest.trans htail
    obtain ⟨message, rfl, hmessage⟩ := hsilent.tail come hcome _ List.mem_cons_self
    have hlater : UpTo rest (∀ answer ∈ ·, Silent readMessage answer) answers :=
      fun come hcome => (List.forall_mem_cons.mp (hsilent.tail come hcome)).2
    rw [pollRead] at h
    obtain hskip | heof | hempty := hmessage
    · rw [hskip] at h
      exact ih hlater h
    · rw [heof] at h
      cases h
      exact ⟨rfl, rfl, hlater⟩
    · rw [hempty] at h
      exact ih hlater h

theorem pollRead_weight
    (h : pollRead readMessage room readBuf answers = (result, readBuf', answers')) :
    readBuf'.length + weight readMessage answers' ≤
        readBuf.length + weight readMessage answers ∧
      (0 < room → AtEnd (room, result) ∨ readBuf'.length + weight readMessage answers' <
        readBuf.length + weight readMessage answers) := by
  fun_induction pollRead readMessage room readBuf answers with
  | case1 byte readBuf =>
    cases h
    rw [List.length_drop, List.length_cons]
    exact ⟨by omega, fun hroom => .inr (by omega)⟩
  | case2 =>
    cases h
    exact ⟨Nat.le_refl _, fun hroom => .inl ⟨hroom, rfl⟩⟩
  | case3 =>
    cases h
    rw [weight]
    exact ⟨by omega, fun _ => .inr (by omega)⟩
  | case4 =>
    cases h
    rw [weight]
    exact ⟨by omega, fun _ => .inr (by omega)⟩
  | case5 message answers data hmessage ih =>
    rw [weight, hmessage]
    obtain ⟨hle, hlt⟩ := ih h
    simp only [List.length_nil]
    exact ⟨by omega, fun hroom => (hlt hroom).imp_right (by omega)⟩
  | case6 message answers hmessage ih =>
    rw [weight, hmessage]
    obtain ⟨hle, hlt⟩ := ih h
    exact ⟨Nat.le_succ_of_le hle, fun hroom => (hlt hroom).imp_right Nat.lt_succ_of_lt⟩
  | case7 message answers hmessage =>
    rw [weight, hmessage]
    cases h
    dsimp only
    exact ⟨by omega, fun _ => .inr (by omega)⟩

/-- What holds of the reads so far: they have passed on what has come, or they are at the end. -/
structure Reads (readMessage : M → WsIoReadMessage) (answers rest : List (Poll M))
    (s : WsMessageStreamIo M) : Prop where
  flow : s.reads.flatMap (·.2.bytes) ++ (s.readBuf ++ payloads readMessage s.answers) =
      payloads readMessage answers ∧
    UpTo rest (QuietAfterClose readMessage) s.answers ∧ (∀ read ∈ s.reads, ¬ AtEnd read) ∨
    s.reads.flatMap (·.2.bytes) = payloads readMessage answers ∧
      s.readBuf = [] ∧ UpTo rest (∀ answer ∈ ·, Silent readMessage answer) s.answers
  forGood : s.reads.Pairwise fun read later => AtEnd read → later.2 = .ready []
  near : (∃ read ∈ s.reads, AtEnd read) ∨
    s.reads.countP (0 < ·.1) + (s.readBuf.length + weight readMessage s.answers) ≤
      weight readMessage answers

theorem Reads.read {s : WsMessageStreamIo M} (h : Reads readMessage answers rest s) (room : Nat)
    (hrest : rest <:+ (s.step readMessage (.read room)).answers) :
    Reads readMessage answers rest (s.step readMessage (.read room)) := by
  rw [WsMessageStreamIo.step] at hrest ⊢
  generalize houtcome : pollRead readMessage room s.readBuf s.answers = outcome at hrest ⊢
  obtain ⟨result, readBuf, answers'⟩ := outcome
  have hbytes : (s.reads ++ [(room, result)]).flatMap (·.2.bytes) =
      s.reads.flatMap (·.2.bytes) ++ result.bytes := by simp
  have hend : ∀ read, (∃ r ∈ s.reads, AtEnd r) ∨ AtEnd read →
      ∃ r ∈ s.reads ++ [read], AtEnd r := by
    rintro read (⟨r, hr, hatEnd⟩ | hatEnd)
    · exact ⟨r, List.mem_append_left _ hr, hatEnd⟩
    · exact ⟨read, List.mem_append_right _ List.mem_cons_self, hatEnd⟩
  have hpairwise : (∀ read ∈ s.reads, AtEnd read → result = .ready []) →
      (s.reads ++ [(room, result)]).Pairwise fun read later => AtEnd read → later.2 = .ready [] :=
    fun hlast => List.pairwise_append.mpr ⟨h.forGood, List.pairwise_singleton ..,
      fun read hread later hlater => List.mem_singleton.mp hlater ▸ hlast read hread⟩
  have hnear : (∃ read ∈ s.reads ++ [(room, result)], AtEnd read) ∨
      (s.reads ++ [(room, result)]).countP (0 < ·.1) +
        (readBuf.length + weight readMessage answers') ≤ weight readMessage answers := by
    obtain hle | hnear := h.near.imp_left fun hatEnd => hend (room, result) (.inl hatEnd)
    · exact .inl hle
    · obtain ⟨hle, hlt⟩ := pollRead_weight houtcome
      rw [List.countP_append, List.countP_singleton]
      split
      next hroom =>
        obtain hatEnd | hlt := hlt (of_decide_eq_true hroom)
        · exact .inl (hend _ (.inr hatEnd))
        · exact .inr (by omega)
      · exact .inr (by omega)
  obtain ⟨hflow, hquiet, hopen⟩ | ⟨hall, hempty, hsilent⟩ := h.flow
  · obtain ⟨hpassed, hquiet', hatEnd⟩ | ⟨rfl, rfl, hsilent, hdone⟩ :=
      pollRead_cases hquiet houtcome
    · refine ⟨.inl ⟨?_, hquiet', ?_⟩,
        hpairwise fun read hread => (absurd · (hopen read hread)), hnear⟩
      · rw [hbytes, List.append_assoc, hpassed, hflow]
      · exact List.forall_mem_append.mpr ⟨hopen, List.forall_mem_singleton.mpr hatEnd⟩
    · refine ⟨.inr ⟨?_, rfl, hsilent⟩, hpairwise fun _ _ _ => rfl, hnear⟩
      rw [hbytes, ← hflow, hdone]
      rfl
  · rw [hempty] at houtcome
    obtain ⟨rfl, rfl, hsilent'⟩ := pollRead_silent hsilent houtcome hrest
    refine ⟨.inr ⟨?_, rfl, hsilent'⟩, hpairwise fun _ _ _ => rfl, hnear⟩
    rw [hbytes, hall]
    exact List.append_nil _

theorem step_reads {s : WsMessageStreamIo M} (h : Reads readMessage answers rest s) (call : Call)
    (hrest : rest <:+ (s.step readMessage call).answers) :
    Reads readMessage answers rest (s.step readMessage call) := by
  cases call with
  | read room => exact h.read room hrest
  | write | flush | shutdown => exact ⟨h.flow, h.forGood, h.near⟩

theorem run_suffix (readMessage : M → WsIoReadMessage) (s : WsMessageStreamIo M)
    (calls : List Call) : (s.run readMessage calls).answers <:+ s.answers := by
  induction calls generalizing s with
  | nil => exact List.suffix_rfl
  | cons call calls ih =>
    refine (ih (s.step readMessage call)).trans ?_
    cases call with
    | write | flush | shutdown => exact List.suffix_rfl
    | read room =>
      obtain ⟨-, hsame⟩ | htail := pollRead_rest readMessage room s.readBuf s.answers
      · exact ⟨[], hsame⟩
      · exact htail.trans (List.tail_suffix _)

theorem Reads.faithful {s : WsMessageStreamIo M} (h : Reads readMessage answers rest s)
    (hwrites : Writes s) : Faithful readMessage answers s := by
  refine ⟨hwrites, ?_, ?_, h.forGood, fun hmany => h.near.resolve_right (by omega)⟩
  · obtain ⟨hflow, -, -⟩ | ⟨hall, -, -⟩ := h.flow
    · exact ⟨_, hflow⟩
    · exact hall ▸ List.prefix_rfl
  · rintro ⟨read, hread, hatEnd⟩
    obtain ⟨-, -, hopen⟩ | ⟨hall, -, -⟩ := h.flow
    · exact absurd hatEnd (hopen read hread)
    · exact hall

def WsMessageStreamIo.RunOrderly (readMessage : M → WsIoReadMessage) :
    WsMessageStreamIo M → List Call → Prop
  | _, [] => True
  | s, call :: calls => s.Orderly call ∧ (s.step readMessage call).RunOrderly readMessage calls

/-- The stream does what it is for in every state that an orderly run comes to, where the socket
gives it nothing after a close. -/
theorem run_faithful (readMessage : M → WsIoReadMessage) (answers : List (Poll M))
    (calls : List Call)
    (hquiet : UpTo ((WsMessageStreamIo.new answers).run readMessage calls).answers
      (QuietAfterClose readMessage) answers)
    (horderly : (WsMessageStreamIo.new answers).RunOrderly readMessage calls) :
    ∀ before, before <+: calls →
      Faithful readMessage answers ((WsMessageStreamIo.new answers).run readMessage before) := by
  have hrun : ∀ (before : List Call) (s : WsMessageStreamIo M) (calls : List Call),
      Reads readMessage answers (s.run readMessage calls).answers s → Writes s →
        before <+: calls → s.RunOrderly readMessage calls →
          Faithful readMessage answers (s.run readMessage before) := by
    intro before
    induction before with
    | nil => exact fun s calls hreads hwrites _ _ => hreads.faithful hwrites
    | cons call before ih =>
      intro s calls hreads hwrites hbefore horderly
      cases calls with
      | nil => exact absurd hbefore.length_le (Nat.not_succ_le_zero _)
      | cons call' calls =>
        obtain ⟨rfl, hbefore'⟩ := List.cons_prefix_cons.mp hbefore
        exact ih _ calls (step_reads hreads call (run_suffix _ _ calls))
          (step_writes hwrites horderly.1) hbefore' horderly.2
  intro before hbefore
  refine hrun before _ calls ⟨.inl ⟨rfl, hquiet, nofun⟩, .nil, .inr ?_⟩ ⟨[], rfl, .inl rfl⟩ hbefore
    horderly
  change 0 + (0 + weight readMessage answers) ≤ weight readMessage answers
  omega

def dataThenClose : List (Poll WsIoReadMessage) := [.ready (.data [1, 2]), .pending, .ready .eof]

def sixCalls : List Call :=
  [.write [7] ⟨.ready (), .ok (), .pending⟩, .write [7] ⟨.pending, .ok (), .ready ()⟩,
    .read 1, .read 4, .read 4, .read 4]

/-- A write that is flushed by its second poll, and reads up to the end. -/
theorem run_faithful_six :
    Faithful id dataThenClose ((WsMessageStreamIo.new dataThenClose).run id sixCalls) :=
  run_faithful id dataThenClose sixCalls
    (fun come hcome => (List.append_nil come).symm.trans hcome ▸ List.forall_mem_nil _)
    ⟨fun _ _ => .inr rfl, fun _ => .inr rfl, trivial, trivial, trivial, trivial, trivial⟩ _
    List.prefix_rfl

theorem not_run_faithful : ¬ ∀ (answers : List (Poll WsIoReadMessage)) (calls : List Call),
    Faithful id answers ((WsMessageStreamIo.new answers).run id calls) := by
  intro h
  obtain ⟨unreported, hbytes, -⟩ := (h []
    [.write [1, 2] ⟨.ready (), .ok (), .pending⟩, .write [3] ⟨.ready (), .ok (), .ready ()⟩]).writes
  exact absurd (List.cons.inj hbytes).1 (by decide)

end Cdesktop.WsIo
