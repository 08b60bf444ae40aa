import Cdesktop.WebRtcFrames

/-! What a failing write leaves to the peer, what a lost link leaves to the connections, and the
client as a whole. -/

namespace Cdesktop.WebRtc
open Fragment (Defragmenter fragment)
set_option autoImplicit true

variable {w w' : World}

def Writer.done : Writer → List (List UInt8)
  | .writing _ _ done _ => done
  | _ => []

def Writer.Cut : Writer → Prop
  | .writing _ data done rest => done ++ rest = fragment data ∧ rest ≠ []
  | _ => True

/-- The peer has the messages that are written and the chunks of the one that is going on, or it is
off the mark and the client is disconnected for good. -/
structure World.Clean (w : World) : Prop where
  cut : w.writer.Cut
  unopened : w.opened = false → w.sent = []
  aligned : (∃ before, w.sent = before ++ w.writer.done ∧
      Defragmenter.new.feed before = (w.written, .new)) ∨
    w.opened ∧ w.connected = false

theorem World.Clean.yields (h : w.Clean) (hconnected : w.connected) :
    (Defragmenter.new.feed w.sent).1 = w.written := by
  cases h.aligned with
  | inl haligned =>
    obtain ⟨before, hsent, hbefore⟩ := haligned
    have hdone : (Defragmenter.new.feed w.writer.done).1 = [] := by
      have hcut := h.cut
      cases hwriter : w.writer with
      | writing call data done rest =>
        rw [hwriter] at hcut
        exact Defragmenter.feed_part hcut.1 hcut.2
      | idle | ended => rfl
    rw [hsent, Defragmenter.feed_append, hbefore]
    change w.written ++ (Defragmenter.new.feed w.writer.done).1 = w.written
    rw [hdone, List.append_nil]
  | inr hlost =>
    rw [hlost.2] at hconnected
    cases hconnected

theorem World.Clean.same (h : w.Clean)
    (hsame : (w'.writer, w'.sent, w'.written, w'.opened) = (w.writer, w.sent, w.written, w.opened))
    (hconnected : w.connected = false → w'.connected = false) : w'.Clean := by
  simp only [Prod.mk.injEq] at hsame
  obtain ⟨hwriter, hsent, hwritten, hopened⟩ := hsame
  constructor
  · exact hwriter ▸ h.cut
  · rw [hopened, hsent]
    exact h.unopened
  · rw [hsent, hwriter, hwritten, hopened]
    exact h.aligned.imp_right fun hlost => ⟨hlost.1, hconnected hlost.2⟩

theorem World.Clean.modify (h : w.Clean) (id : Nat) (f : Call → Call) : (w.modify id f).Clean :=
  h.same rfl fun hlost => hlost

theorem World.Clean.write (h : w.Clean) (hidle : w.writer = .idle) (hwriter : w'.writer =
    .writing call data [] (fragment data)) (hsent : w'.sent = w.sent)
    (hwritten : w'.written = w.written) (hopened : w'.opened = w.opened)
    (hconnected : w'.connected = w.connected) : w'.Clean := by
  constructor
  · rw [hwriter]
    exact ⟨rfl, Fragment.fragment_ne_nil data⟩
  · rw [hopened, hsent]
    exact h.unopened
  · have haligned := h.aligned
    rw [hidle] at haligned
    rw [hsent, hwriter, hwritten, hopened, hconnected]
    exact haligned

theorem World.Clean.writeOk (h : w.Clean) (hwriter : w.writer = .writing call data done (chunk :: rest))
    (hopened : w.opened) :
    (if rest.isEmpty then
      { w with sent := w.sent ++ [chunk], writer := .idle, written := w.written ++ [data] }
    else
      { w with sent := w.sent ++ [chunk], writer := .writing call data (done ++ [chunk]) rest }).Clean := by
  have hcut := h.cut
  have haligned := h.aligned
  rw [hwriter] at hcut haligned
  obtain ⟨hcut, _⟩ := hcut
  have hopen {P : Prop} (hunopened : w.opened = false) : P := by
    rw [hopened] at hunopened
    cases hunopened
  split
  · next hrest =>
    rw [List.isEmpty_iff.mp hrest] at hcut
    constructor
    · exact trivial
    · exact hopen
    · apply haligned.imp_left
      rintro ⟨before, hsent, hbefore⟩
      apply Exists.intro (before ++ fragment data)
      change w.sent ++ [chunk] = before ++ fragment data ++ [] ∧ _ = (w.written ++ [data], _)
      rw [hsent, Defragmenter.feed_append, hbefore]
      change _ ∧ (w.written ++ (Defragmenter.new.feed (fragment data)).1, _) = _
      rw [Defragmenter.feed_fragment, ← hcut, List.append_nil, List.append_assoc]
      exact ⟨rfl, rfl⟩
  · next hrest =>
    constructor
    · apply And.intro
      · rw [List.append_assoc]
        exact hcut
      · exact fun hnil => hrest (List.isEmpty_iff.mpr hnil)
    · exact hopen
    · apply haligned.imp_left
      rintro ⟨before, hsent, hbefore⟩
      have happend := (congrArg (· ++ [chunk]) hsent).trans (List.append_assoc _ _ _)
      exact ⟨before, happend, hbefore⟩

theorem World.Clean.writeFailed (h : w.Clean) (call : Option Nat)
    (hok : w.writer.done = [] ∨ w.connected = false) : (w.writeFailed call).Clean := by
  have hidle : { w with writer := .idle }.Clean := by
    constructor
    · exact trivial
    · exact h.unopened
    · cases h.aligned with
      | inr hlost => exact .inr hlost
      | inl haligned =>
        obtain ⟨before, hsent, hbefore⟩ := haligned
        by_cases hdone : w.writer.done = []
        · rw [hdone] at hsent
          exact .inl ⟨before, hsent, hbefore⟩
        · have hopened : w.opened := by
            apply Bool.of_not_eq_false
            intro hunopened
            rw [h.unopened hunopened] at hsent
            exact hdone (List.append_eq_nil_iff.mp hsent.symm).2
          exact .inr ⟨hopened, hok.resolve_left hdone⟩
  cases call with
  | none => exact hidle
  | some id =>
    unfold World.writeFailed
    dsimp only
    split
    · exact hidle.same rfl fun hlost => hlost
    · exact hidle

def leftOpen (wsFrameSenders : List Nat) (messages : List DataChannelMessage) : List Nat :=
  messages.foldl (fun ids message => message.after ids) wsFrameSenders

variable {id : Nat} {senders ids : List Nat} {message : DataChannelMessage}
variable {messages : List DataChannelMessage}

theorem DataChannelMessage.after_subset (message : DataChannelMessage) (h : senders ⊆ ids) :
    message.after senders ⊆ message.after ids := by
  have hremove (connId : Nat) : remove connId senders ⊆ remove connId ids := by
    intro other hother
    have hmem := mem_remove.mp hother
    exact mem_remove.mpr ⟨h hmem.1, hmem.2⟩
  cases message with
  | wsOpened connId => exact List.cons_subset_cons connId h
  | wsClose connId | wsError connId => exact hremove connId
  | httpResponse | wsFrame | other => exact h

theorem DataChannelMessage.mem_after (hmem : id ∈ senders) (hopen : message.closes id = false) :
    id ∈ message.after senders := by
  have hremove (connId : Nat) (hne : decide (connId = id) = false) : id ∈ remove connId senders :=
    mem_remove.mpr ⟨hmem, Ne.symm (of_decide_eq_false hne)⟩
  cases message with
  | wsOpened connId => exact List.mem_cons_of_mem _ hmem
  | wsClose connId | wsError connId => exact hremove connId hopen
  | httpResponse | wsFrame | other => exact hmem

theorem leftOpen_subset (h : senders ⊆ ids) : leftOpen senders messages ⊆ leftOpen ids messages := by
  induction messages generalizing senders ids with
  | nil => exact h
  | cons message messages ih => exact ih (message.after_subset h)

theorem mem_leftOpen (hmem : id ∈ senders) (hopen : ∀ message ∈ messages, message.closes id = false) :
    id ∈ leftOpen senders messages := by
  induction messages generalizing senders with
  | nil => exact hmem
  | cons message messages ih =>
    apply ih (DataChannelMessage.mem_after hmem (hopen message List.mem_cons_self))
    exact fun m hm => hopen m (List.mem_cons_of_mem _ hm)

namespace World

/-- The receiver waits for a frame, nothing for its connection is on its way or can still come, and
the sender of its channel is held. -/
structure Stuck (w : World) (id : Nat) : Prop where
  waits : ∃ conn, w.connection id = some conn ∧ conn.receiver ∧ conn.channel = []
  held : id ∈ w.wsFrameSenders
  lost : w.link = false
  hand : ∀ frame ∈ w.hand, frame.connId ≠ id
  incoming : ∀ message ∈ w.incoming, message.frameFor id = none ∧ message.closes id = false

/-- What was open when the link was lost is closed by the messages that had come. -/
def Ending (w : World) : Prop := w.link = false → leftOpen w.wsFrameSenders w.incoming = []

theorem Ending.not_stuck (h : w.Ending) (id : Nat) : ¬w.Stuck id := by
  intro hstuck
  have hmem := mem_leftOpen hstuck.held fun message hm => (hstuck.incoming message hm).2
  rw [h hstuck.lost] at hmem
  cases hmem

theorem Ending.frame (h : w.Ending) (hlink : w'.link = w.link)
    (hsenders : w'.wsFrameSenders ⊆ w.wsFrameSenders) (hincoming : w'.incoming = w.incoming) :
    w'.Ending := by
  intro hlost
  rw [hlink] at hlost
  rw [hincoming]
  exact List.subset_nil.mp (h hlost ▸ leftOpen_subset hsenders)

theorem Ending.dispatch (h : w.Ending) : w.dispatch.Ending := by
  unfold World.dispatch
  split
  · next message incoming _ hincoming =>
    obtain ⟨calls, completions, pendingHttp, pendingWsOpen, wsFrameSenders, hand, heq, hsenders⟩ :=
      dispatchMessage_eq { w with incoming := incoming } message
    dsimp only
    rw [heq]
    intro hlost
    have hnone := h hlost
    rw [hincoming] at hnone
    exact List.subset_nil.mp (hnone ▸ leftOpen_subset hsenders)
  · exact h

theorem Ending.deliver (h : w.Ending) : w.deliver.Ending := by
  unfold World.deliver
  split
  · next frame _ =>
    obtain ⟨calls, hand, wsFrameSenders, heq, hsenders⟩ :=
      sendFrame_eq frame { w with hand := none }
    rw [heq]
    exact h.frame rfl hsenders rfl
  · exact h

/-- A write fails before its first chunk or on a client that is disconnected, and the link is lost
for good where the messages that have come close every connection. -/
def keepsUp (w : World) : Event → Bool
  | .writeChunk ok => ok && w.opened || w.writer.done.isEmpty || !w.connected
  | .ice .failed | .ice .closed => !w.link || (leftOpen w.wsFrameSenders w.incoming).isEmpty
  | _ => true

theorem Clean.writeChunk (h : w.Clean) (ok : Bool) (hok : w.keepsUp (.writeChunk ok)) :
    (w.writeChunk ok).Clean := by
  unfold World.writeChunk
  split
  · next call data done chunk rest hwriter =>
    split
    · next htaken =>
      have hwritten := h.writeOk hwriter htaken.2
      dsimp only
      split at hwritten
      · next hrest => exact (if_pos hrest).symm ▸ hwritten
      · next hrest => exact (if_neg hrest).symm ▸ hwritten
    · next hfails =>
      apply h.writeFailed
      unfold keepsUp at hok
      rw [Bool.or_eq_true, Bool.or_eq_true, Bool.and_eq_true] at hok
      cases hok with
      | inl hok =>
        cases hok with
        | inl htaken => exact absurd htaken hfails
        | inr hdone => exact .inl (List.isEmpty_iff.mp hdone)
      | inr hlost => exact .inr (Bool.not_eq_true' _ ▸ hlost)
  · exact h

theorem Clean.step (h : w.Clean) (hok : w.keepsUp event) : (w.step event).Clean := by
  cases event with
  | dcOpen =>
    unfold World.step
    dsimp only
    split
    · exact h
    · next hunopened =>
      constructor
      · exact h.cut
      · nofun
      · cases h.aligned with
        | inl haligned => exact .inl haligned
        | inr hlost => exact absurd hlost.1 hunopened
  | ice | disconnect => exact h.same rfl fun _ => rfl
  | cancelToken => exact h.same rfl fun hlost => hlost
  | start kind data =>
    change (w.start kind data).Clean
    unfold start
    split
    · exact h.same rfl fun hlost => hlost
    · exact h
  | enqueue id =>
    change (w.enqueue id).Clean
    unfold enqueue
    split
    · split
      · exact h.same rfl fun _ => rfl
      · exact h.same rfl fun hlost => hlost
    · exact h
  | take id =>
    change (w.take id).Clean
    unfold take
    split
    · dsimp only
      split
      · exact h.same rfl fun _ => rfl
      · exact h.modify id _
    · exact h
  | giveUp id =>
    change (w.giveUp id).Clean
    unfold giveUp
    split
    · exact h.same rfl fun _ => rfl
    · exact h
  | abandon id | dropReceiver id | recv id => exact h.modify id _
  | queueWrite data =>
    unfold World.step
    dsimp only
    split
    · exact h
    · exact h.same rfl fun hlost => hlost
  | takeCommand =>
    change w.takeCommand.Clean
    unfold takeCommand
    split
    · next hidle _ =>
      split
      · exact h.write hidle rfl rfl rfl rfl rfl
      · exact h.same rfl fun hlost => hlost
    · exact h
  | takeData =>
    change w.takeData.Clean
    unfold takeData
    split
    · next hidle _ => exact h.write hidle rfl rfl rfl rfl rfl
    · exact h
  | writeChunk ok => exact h.writeChunk ok hok
  | stopWriter =>
    change w.stopWriter.Clean
    unfold stopWriter
    split
    · next hstops =>
      have haligned := h.aligned
      rw [hstops.1] at haligned
      exact ⟨trivial, h.unopened, haligned⟩
    · exact h
  | receive message =>
    unfold World.step
    dsimp only
    split
    · exact h.same rfl fun hlost => hlost
    · exact h
  | dispatch =>
    change w.dispatch.Clean
    unfold dispatch
    split
    · next message incoming _ _ =>
      obtain ⟨calls, completions, pendingHttp, pendingWsOpen, wsFrameSenders, hand, heq, _⟩ :=
        dispatchMessage_eq { w with incoming := incoming } message
      dsimp only
      rw [heq]
      exact h.same rfl fun hlost => hlost
    · exact h
  | deliver =>
    change w.deliver.Clean
    unfold deliver
    split
    · next frame _ =>
      obtain ⟨calls, hand, wsFrameSenders, heq, _⟩ := sendFrame_eq frame { w with hand := none }
      rw [heq]
      exact h.same rfl fun hlost => hlost
    · exact h

theorem Ending.writeFailed (h : w.Ending) (call : Option Nat) : (w.writeFailed call).Ending := by
  cases call with
  | none => exact h
  | some id =>
    unfold World.writeFailed
    dsimp only
    split <;> exact h

theorem Ending.step (h : w.Ending) (hok : w.keepsUp event) : (w.step event).Ending := by
  cases event with
  | ice state =>
    intro hlost
    change (w.link && decide (state = .disconnected)) = false at hlost
    cases hlink : w.link with
    | false => exact h hlink
    | true =>
      rw [hlink, Bool.true_and] at hlost
      unfold keepsUp at hok
      rw [hlink] at hok
      cases state with
      | disconnected => cases hlost
      | failed | closed => exact List.isEmpty_iff.mp hok
  | receive message =>
    unfold World.step
    dsimp only
    split
    · next hlink =>
      intro hlost
      exact absurd (hlink.symm.trans hlost) nofun
    · exact h
  | dispatch => exact h.dispatch
  | deliver => exact h.deliver
  | dcOpen | queueWrite data =>
    unfold World.step
    dsimp only
    split <;> exact h
  | cancelToken | disconnect | abandon id | dropReceiver id | recv id => exact h
  | start kind data =>
    change (w.start kind data).Ending
    unfold start
    split <;> exact h
  | enqueue id =>
    change (w.enqueue id).Ending
    unfold enqueue
    split
    · split <;> exact h
    · exact h
  | take id =>
    change (w.take id).Ending
    unfold take
    split
    · dsimp only
      split <;> exact h
    · exact h
  | giveUp id =>
    change (w.giveUp id).Ending
    unfold giveUp
    split <;> exact h
  | takeCommand =>
    change w.takeCommand.Ending
    unfold takeCommand
    split
    · split <;> exact h
    · exact h
  | takeData =>
    change w.takeData.Ending
    unfold takeData
    split <;> exact h
  | writeChunk ok =>
    change (w.writeChunk ok).Ending
    unfold writeChunk
    split
    · split
      · dsimp only
        split <;> exact h
      · exact h.writeFailed _
    · exact h
  | stopWriter =>
    change w.stopWriter.Ending
    unfold stopWriter
    split <;> exact h

/-- The frames of the connection up to its close, in their order: those that its receiver has read,
and while there is a receiver, those in its channel and the one that waits for room there. -/
structure Delivered (w : World) (id : Nat) (conn : WsConnection) : Prop where
  opened : ∃ selectedProtocol,
    w.dispatched[conn.opened]? = some (.wsOpened id selectedProtocol)
  part : conn.read ++ conn.channel <+:
    framesUntilClose id (w.dispatched.drop (conn.opened + 1))
  whole : conn.receiver → conn.read ++ conn.channel ++ w.hand.toList.filter (·.connId = id) =
    framesUntilClose id (w.dispatched.drop (conn.opened + 1))

structure Sound (w : World) : Prop where
  correlated : w.Correlated
  delivered : ∀ id conn, w.connection id = some conn → w.Delivered id conn
  yields : w.connected → (Defragmenter.new.feed w.sent).1 = w.written
  ends : ∀ id, ¬w.Stuck id

structure Kept (w : World) : Prop where
  pending : w.Pending
  routing : w.Routing
  clean : w.Clean
  ending : w.Ending

theorem Kept.sound (h : w.Kept) : w.Sound := by
  constructor
  · exact h.pending.correlated
  · intro id conn hconn
    have hrouted := h.routing id conn hconn
    exact ⟨hrouted.opened, hrouted.part, hrouted.whole⟩
  · exact h.clean.yields
  · exact h.ending.not_stuck

theorem new_kept : new.Kept := by
  constructor
  · exact ⟨nofun, nofun, nofun, nofun, List.nodup_nil, nofun⟩
  · nofun
  · exact ⟨trivial, fun _ => rfl, .inl ⟨[], rfl, rfl⟩⟩
  · nofun

end World

/-- Calls and messages go together, and each connection gets its frames; the peer gets what is
written as a whole, and with the link no connection is left to wait for ever. -/
theorem client_sound (events : List Event)
    (h : Run.Each World.step (fun w event => w.keepsUp event = true) World.new events) :
    (Run.run World.step World.new events).Sound := by
  have hkept : (Run.run World.step World.new events).Kept := by
    apply Run.Each.preserves _ World.new_kept h
    intro w event hw hok
    exact ⟨hw.pending.step event, hw.routing.step event, hw.clean.step hok, hw.ending.step hok⟩
  exact hkept.sound

def openConnection : List Event :=
  [.dcOpen, .start .wsOpen [1], .enqueue 0, .takeCommand, .writeChunk true,
    .receive (.wsOpened 0 none), .dispatch, .take 0]

theorem client_sound_sample :
    (Run.run World.step World.new (openConnection ++
      [.start .http [2], .enqueue 1, .takeCommand, .queueWrite [3], .receive (.wsFrame ⟨0, "a"⟩),
        .writeChunk false, .takeData, .writeChunk true, .dispatch, .receive (.httpResponse 1 "late"),
        .dispatch, .take 1, .receive (.wsClose 0), .ice .failed, .dispatch, .recv 0,
        .stopWriter])).Sound := by
  apply client_sound
  decide +kernel

def tornWrite (long short : List UInt8) : List Event :=
  openConnection ++ [.queueWrite long, .queueWrite short, .takeData] ++
    ([.writeChunk true, .writeChunk false, .takeData] ++ [.writeChunk true])

/-- The client is still connected, and the peer gets the short message behind a piece of the long
one. -/
theorem run_tornWrite {long short : List UInt8} (hlong : Fragment.chunkPayloadSize < long.length)
    (hshort : short.length ≤ Fragment.chunkPayloadSize) :
    ∃ payload, payload ≠ [] ∧ Run.run World.step World.new (tornWrite long short) =
      { Run.run World.step World.new openConnection with
        written := [[1], short]
        sent := [[Fragment.bitfieldEnd, 1], Fragment.bitfieldMore :: payload,
          Fragment.bitfieldEnd :: short] } := by
  obtain ⟨payload, next, rest, hfragment, hpayload⟩ := Fragment.fragment_long hlong
  have hone : fragment short = [Fragment.bitfieldEnd :: short] := if_pos hshort
  have hstart : Run.run World.step World.new
      (openConnection ++ [.queueWrite long, .queueWrite short, .takeData]) =
      { Run.run World.step World.new openConnection with
        dcWriteQueue := [short], writer := .writing none long [] (fragment long) } := rfl
  have htorn : Run.run World.step
      { Run.run World.step World.new openConnection with
        dcWriteQueue := [short]
        writer := .writing none long [] ((Fragment.bitfieldMore :: payload) :: next :: rest) }
      [.writeChunk true, .writeChunk false, .takeData] =
      { Run.run World.step World.new openConnection with
        sent := [[Fragment.bitfieldEnd, 1], Fragment.bitfieldMore :: payload]
        writer := .writing none short [] (fragment short) } := rfl
  apply Exists.intro payload
  apply And.intro hpayload
  unfold tornWrite
  rw [Run.run_append, hstart, hfragment, Run.run_append, htorn, hone]
  rfl

theorem World.Sound.not_torn {long short : List UInt8}
    (hlong : Fragment.chunkPayloadSize < long.length)
    (hshort : short.length ≤ Fragment.chunkPayloadSize) :
    ¬(Run.run World.step World.new (tornWrite long short)).Sound := by
  intro h
  obtain ⟨payload, hpayload, heq⟩ := run_tornWrite hlong hshort
  have hyields := h.yields
  rw [heq] at hyields
  have hfeed := hyields rfl
  change (Defragmenter.new.feed [_, _, _]).1 = [[1], short] at hfeed
  rw [Defragmenter.feed, Defragmenter.process_end, Defragmenter.feed, Defragmenter.process_more,
    Defragmenter.feed, Defragmenter.process_end] at hfeed
  have hsame : payload ++ short = short := List.singleton_inj.mp (List.cons.inj hfeed).2
  exact hpayload (List.append_left_eq_self.mp hsame)

/-- Two queued writes of an open connection, the first one of two chunks of which one is written; and a
connection whose link is lost. -/
theorem client_not_sound :
    ¬(Run.run World.step World.new (tornWrite (List.replicate 61441 0) [7])).Sound ∧
    ¬(Run.run World.step World.new (openConnection ++ [.ice .failed])).Sound := by
  apply And.intro
  · apply World.Sound.not_torn
    · rw [List.length_replicate]
      decide
    · decide
  · intro h
    apply h.ends 0
    constructor
    · exact ⟨⟨0, true, [], []⟩, by decide +kernel, rfl, rfl⟩
    · decide +kernel
    · decide +kernel
    · have hhand : (Run.run World.step World.new (openConnection ++ [.ice .failed])).hand = none := by
        decide +kernel
      rw [hhand]
      nofun
    · have hincoming :
          (Run.run World.step World.new (openConnection ++ [.ice .failed])).incoming = [] := by
        decide +kernel
      rw [hincoming]
      nofun

end Cdesktop.WebRtc
