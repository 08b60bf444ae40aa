import Cdesktop.WebRtcCalls
import Mathlib.Data.List.TakeWhile

/-! The frames of a connection, from its opened message to its close. -/

namespace Cdesktop.WebRtc
set_option autoImplicit true

def DataChannelMessage.closes (id : Nat) : DataChannelMessage → Bool
  | .wsClose connId | .wsError connId _ => connId = id
  | _ => false

def DataChannelMessage.frameFor (id : Nat) : DataChannelMessage → Option WsFrame
  | .wsFrame frame => if frame.connId = id then some frame else none
  | _ => none

/-- The frames of the connection before its close. -/
def framesUntilClose (id : Nat) (messages : List DataChannelMessage) : List WsFrame :=
  (messages.takeWhile fun message => !message.closes id).filterMap (·.frameFor id)

def World.connection (w : World) (id : Nat) : Option WsConnection :=
  w.calls[id]?.bind (·.connection)

structure Routed (dispatched : List DataChannelMessage) (hand : Option WsFrame)
    (wsFrameSenders : List Nat) (id : Nat) (conn : WsConnection) : Prop where
  opened : ∃ selectedProtocol, dispatched[conn.opened]? = some (.wsOpened id selectedProtocol)
  part : conn.read ++ conn.channel <+: framesUntilClose id (dispatched.drop (conn.opened + 1))
  whole : conn.receiver → conn.read ++ conn.channel ++ hand.toList.filter (·.connId = id) =
    framesUntilClose id (dispatched.drop (conn.opened + 1))
  active : conn.receiver → (id ∈ wsFrameSenders ↔
    ∀ message ∈ dispatched.drop (conn.opened + 1), message.closes id = false)

def World.Routing (w : World) : Prop :=
  ∀ id conn, w.connection id = some conn → Routed w.dispatched w.hand w.wsFrameSenders id conn

variable {w w' : World} {id : Nat} {conn : WsConnection} {message : DataChannelMessage}
variable {dispatched messages : List DataChannelMessage} {hand : Option WsFrame}
variable {wsFrameSenders : List Nat}

theorem framesUntilClose_open (h : ∀ message ∈ messages, message.closes id = false)
    (message : DataChannelMessage) : framesUntilClose id (messages ++ [message]) =
      framesUntilClose id messages ++ (message.frameFor id).toList := by
  have hall : ∀ m ∈ messages, (!m.closes id) = true := by
    intro m hm
    rw [h m hm]
    rfl
  unfold framesUntilClose
  rw [List.takeWhile_append_of_pos hall, List.takeWhile_eq_self_iff.mpr hall,
    List.filterMap_append]
  congr 1
  cases message with
  | wsFrame frame =>
    change ([DataChannelMessage.wsFrame frame]).filterMap _ = _
    rw [List.filterMap_cons, List.filterMap_nil]
    cases (DataChannelMessage.wsFrame frame).frameFor id <;> rfl
  | wsClose connId | wsError connId error =>
    unfold List.takeWhile
    split <;> rfl
  | httpResponse | wsOpened | other => rfl

theorem framesUntilClose_closed (h : ¬∀ message ∈ messages, message.closes id = false)
    (message : DataChannelMessage) :
    framesUntilClose id (messages ++ [message]) = framesUntilClose id messages := by
  unfold framesUntilClose
  congr 1
  induction messages with
  | nil => exact absurd nofun h
  | cons first messages ih =>
    rw [List.cons_append, List.takeWhile_cons, List.takeWhile_cons]
    split
    · next hfirst =>
      rw [ih]
      intro hall
      apply h
      intro m hm
      cases List.mem_cons.mp hm with
      | inl heq => simpa [heq] using hfirst
      | inr hm => exact hall m hm
    · rfl

theorem framesUntilClose_mono (id : Nat) (messages : List DataChannelMessage)
    (message : DataChannelMessage) :
    framesUntilClose id messages <+: framesUntilClose id (messages ++ [message]) := by
  by_cases h : ∀ message ∈ messages, message.closes id = false
  · rw [framesUntilClose_open h]
    exact List.prefix_append _ _
  · rw [framesUntilClose_closed h]

theorem framesUntilClose_skip (h : message.frameFor id = none)
    (messages : List DataChannelMessage) :
    framesUntilClose id (messages ++ [message]) = framesUntilClose id messages := by
  by_cases hopen : ∀ message ∈ messages, message.closes id = false
  · rw [framesUntilClose_open hopen, h]
    exact List.append_nil _
  · exact framesUntilClose_closed hopen message

section
variable (h : Routed dispatched hand wsFrameSenders id conn)
include h

theorem Routed.drop_concat (message : DataChannelMessage) : (dispatched ++ [message]).drop (conn.opened + 1) =
      dispatched.drop (conn.opened + 1) ++ [message] := by
  obtain ⟨_, hopened⟩ := h.opened
  exact List.drop_append_of_le_length (List.getElem?_eq_some_iff.mp hopened).1

theorem Routed.opened_concat (message : DataChannelMessage) : ∃ selectedProtocol,
      (dispatched ++ [message])[conn.opened]? = some (.wsOpened id selectedProtocol) := by
  obtain ⟨selectedProtocol, hopened⟩ := h.opened
  exact ⟨selectedProtocol, getElem?_concat hopened message⟩

theorem Routed.part_concat (message : DataChannelMessage) : conn.read ++ conn.channel <+:
      framesUntilClose id ((dispatched ++ [message]).drop (conn.opened + 1)) := by
  rw [h.drop_concat message]
  exact h.part.trans (framesUntilClose_mono id _ message)

theorem Routed.skip (hframe : message.frameFor id = none) (hcloses : message.closes id = false) :
    Routed (dispatched ++ [message]) hand wsFrameSenders id conn := by
  have hdrop := h.drop_concat message
  constructor
  · exact h.opened_concat message
  · exact h.part_concat message
  · intro hreceiver
    rw [hdrop, framesUntilClose_skip hframe]
    exact h.whole hreceiver
  · intro hreceiver
    rw [hdrop, h.active hreceiver]
    apply Iff.intro
    · intro hall m hm
      cases List.mem_append.mp hm with
      | inl hm => exact hall m hm
      | inr hm => exact List.mem_singleton.mp hm ▸ hcloses
    · exact fun hall m hm => hall m (List.mem_append_left _ hm)

theorem Routed.close (hcloses : message.closes id) (hnot : id ∉ senders) :
    Routed (dispatched ++ [message]) hand senders id conn := by
  have hdrop := h.drop_concat message
  have hframe : message.frameFor id = none := by
    cases message with
    | wsFrame => cases hcloses
    | httpResponse | wsOpened | wsClose | wsError | other => rfl
  constructor
  · exact h.opened_concat message
  · exact h.part_concat message
  · intro hreceiver
    rw [hdrop, framesUntilClose_skip hframe]
    exact h.whole hreceiver
  · intro _
    rw [hdrop]
    apply iff_of_false hnot
    intro hall
    have hopen := hall message (List.mem_append_right _ List.mem_cons_self)
    rw [hcloses] at hopen
    cases hopen

theorem Routed.missed (hnot : id ∉ wsFrameSenders) (message : DataChannelMessage) :
    Routed (dispatched ++ [message]) hand wsFrameSenders id conn := by
  have hdrop := h.drop_concat message
  have hclosed (hreceiver : conn.receiver) :
      ¬∀ m ∈ dispatched.drop (conn.opened + 1), m.closes id = false :=
    fun hopen => hnot ((h.active hreceiver).mpr hopen)
  constructor
  · exact h.opened_concat message
  · exact h.part_concat message
  · intro hreceiver
    rw [hdrop, framesUntilClose_closed (hclosed hreceiver)]
    exact h.whole hreceiver
  · intro hreceiver
    rw [hdrop]
    apply iff_of_false hnot
    exact fun hopen => hclosed hreceiver fun m hm => hopen m (List.mem_append_left _ hm)

theorem Routed.deaf (hreceiver : conn.receiver = false) : Routed dispatched hand' senders id conn := by
  apply Routed.mk h.opened h.part
  · rw [hreceiver]
    nofun
  · rw [hreceiver]
    nofun

theorem Routed.drop :
    Routed dispatched hand wsFrameSenders id { conn with receiver := false } :=
  ⟨h.opened, h.part, nofun, nofun⟩

theorem Routed.recv :
    Routed dispatched hand wsFrameSenders id conn.recv := by
  unfold WsConnection.recv
  split
  · next frame channel hchannel =>
    have hmoved : conn.read ++ [frame] ++ channel = conn.read ++ conn.channel := by
      rw [hchannel, List.append_assoc]
      rfl
    constructor
    · exact h.opened
    · exact hmoved ▸ h.part
    · exact hmoved ▸ h.whole
    · exact h.active
  · exact h

theorem Routed.others (hhand : hand'.toList.filter (·.connId = id) = hand.toList.filter (·.connId = id))
    (hsenders : id ∈ senders ↔ id ∈ wsFrameSenders) : Routed dispatched hand' senders id conn := by
  apply Routed.mk h.opened h.part
  · rw [hhand]
    exact h.whole
  · rw [hsenders]
    exact h.active

end

theorem World.connection_modify (w : World) (id other : Nat) (f : Call → Call) :
    (w.modify id f).connection other =
      if id = other then (w.calls[id]?.map f).bind (·.connection) else w.connection other := by
  unfold World.connection
  rw [modify_get]
  by_cases heq : id = other
  · rw [if_pos heq, if_pos heq, heq]
  · rw [if_neg heq, if_neg heq]
    cases w.calls[other]? <;> rfl

variable {f : Call → Call} {frame : WsFrame}

theorem World.connection_modify_same (w : World) (id other : Nat)
    (h : ∀ call, (f call).connection = call.connection) :
    (w.modify id f).connection other = w.connection other := by
  rw [connection_modify]
  split
  · next heq =>
    rw [← heq]
    unfold World.connection
    cases w.calls[id]? with
    | none => rfl
    | some call => exact h call
  · rfl

theorem World.Routing.same (h : w.Routing) (hconnection : ∀ id, w'.connection id = w.connection id)
    (hdispatched : w'.dispatched = w.dispatched) (hhand : w'.hand = w.hand)
    (hsenders : w'.wsFrameSenders = w.wsFrameSenders) : w'.Routing := by
  intro id conn hconn
  rw [hconnection] at hconn
  rw [hdispatched, hhand, hsenders]
  exact h id conn hconn

theorem World.Routing.modify (h : w.Routing)
    (hf : ∀ call, (f call).connection = call.connection) : (w.modify id f).Routing :=
  h.same (fun other => w.connection_modify_same id other hf) rfl rfl rfl

theorem World.Routing.owner (h : w.Routing) {g : WsConnection → WsConnection}
    (hf : ∀ call, (f call).connection = call.connection ∨
      (f call).connection = call.connection.map g)
    (hg : ∀ dispatched hand senders conn, Routed dispatched hand senders id conn →
      Routed dispatched hand senders id (g conn)) : (w.modify id f).Routing := by
  intro other conn hconn
  rw [connection_modify] at hconn
  split at hconn
  · next heq =>
    cases heq
    cases hcall : w.calls[id]? with
    | none =>
      rw [hcall] at hconn
      cases hconn
    | some call =>
      rw [hcall] at hconn
      change (f call).connection = some conn at hconn
      have hfound : w.connection id = call.connection := by
        unfold World.connection
        rw [hcall]
        rfl
      cases hf call with
      | inl hsame => exact h id conn (hfound.trans (hsame.symm.trans hconn))
      | inr hmap =>
        rw [hmap] at hconn
        obtain ⟨old, hold, hnew⟩ := Option.map_eq_some_iff.mp hconn
        exact hnew ▸ hg _ _ _ old (h id old (hfound.trans hold))
  · exact h other conn hconn

theorem Call.reply_connection (reply : Reply) (call : Call) :
    (call.reply reply).connection = call.connection := by
  unfold Call.reply
  split <;> rfl

theorem World.complete_connection (id other : Nat) (reply : Reply) (w : World) :
    (w.complete id reply).connection other = w.connection other := by
  unfold World.complete
  split
  · exact w.connection_modify_same id other (Call.reply_connection reply)
  · rfl

theorem World.complete_frames (id : Nat) (reply : Reply) (w : World) :
    (w.complete id reply).hand = w.hand ∧
      (w.complete id reply).wsFrameSenders = w.wsFrameSenders ∧
      (w.complete id reply).dispatched = w.dispatched := by
  obtain ⟨calls, completions, heq⟩ := w.complete_eq id reply
  rw [heq]
  exact ⟨rfl, rfl, rfl⟩

theorem mem_remove : other ∈ remove id ids ↔ other ∈ ids ∧ other ≠ id := by
  unfold remove
  rw [List.mem_filter, decide_eq_true_eq]

theorem World.Routing.skip (h : w.Routing) (hconnection : ∀ id, w'.connection id = w.connection id)
    (hhand : w'.hand = w.hand) (hsenders : w'.wsFrameSenders = w.wsFrameSenders)
    (hframe : ∀ id, message.frameFor id = none) (hcloses : ∀ id, message.closes id = false) :
    { w' with dispatched := w.dispatched ++ [message] }.Routing := by
  intro id conn hconn
  change w'.connection id = some conn at hconn
  rw [hconnection] at hconn
  change Routed (w.dispatched ++ [message]) w'.hand w'.wsFrameSenders id conn
  rw [hhand, hsenders]
  exact (h id conn hconn).skip (hframe id) (hcloses id)

theorem World.Routing.close (h : w.Routing) (connId : Nat) (message : DataChannelMessage)
    (hframe : ∀ id, message.frameFor id = none)
    (hcloses : ∀ id, message.closes id = decide (connId = id)) :
    { w with
      wsFrameSenders := remove connId w.wsFrameSenders
      dispatched := w.dispatched ++ [message] }.Routing := by
  intro id conn hconn
  have hrouted := h id conn hconn
  by_cases heq : connId = id
  · apply hrouted.close
    · rw [hcloses]
      exact decide_eq_true heq
    · exact fun hmem => (mem_remove.mp hmem).2 heq.symm
  · have hskipped := hrouted.skip (hframe id) ((hcloses id).trans (decide_eq_false heq))
    apply hskipped.others rfl
    rw [mem_remove]
    exact and_iff_left (Ne.symm heq)

theorem World.Routing.connect (h : w.Routing) (hhand : w.hand = none)
    (selectedProtocol : Option String) (pendingWsOpen : List Nat) :
    { (({ w with
        pendingWsOpen := pendingWsOpen
        wsFrameSenders := id :: remove id w.wsFrameSenders }.connect id).complete id
        (.opened selectedProtocol)) with
      dispatched := w.dispatched ++ [DataChannelMessage.wsOpened id selectedProtocol] }.Routing := by
  intro other conn hconn
  change (World.complete id _ (World.connect id _)).connection other = some conn at hconn
  change Routed (w.dispatched ++ [_]) (World.complete id _ (World.connect id _)).hand
    (World.complete id _ (World.connect id _)).wsFrameSenders other conn
  rw [World.complete_connection, World.connect, World.connection_modify] at hconn
  rw [(World.complete_frames id _ _).1, (World.complete_frames id _ _).2.1]
  change Routed (w.dispatched ++ [_]) w.hand (id :: remove id w.wsFrameSenders) other conn
  split at hconn
  · next heq =>
    cases heq
    obtain ⟨call', hcall', hconn⟩ := Option.bind_eq_some_iff.mp hconn
    obtain ⟨call, _, heq⟩ := Option.map_eq_some_iff.mp hcall'
    rw [← heq] at hconn
    cases hconn
    have hnone : (w.dispatched ++ [DataChannelMessage.wsOpened id selectedProtocol]).drop
        (w.dispatched.length + 1) = [] :=
      List.drop_of_length_le (Nat.le_of_eq List.length_append)
    rw [hhand]
    constructor
    · exact ⟨selectedProtocol, List.getElem?_concat_length⟩
    · exact List.nil_prefix
    · intro _
      rw [hnone]
      rfl
    · intro _
      rw [hnone]
      exact iff_of_true List.mem_cons_self nofun
  · next hne =>
    have hskipped : Routed (w.dispatched ++ [DataChannelMessage.wsOpened id selectedProtocol])
        w.hand w.wsFrameSenders other conn := (h other conn hconn).skip rfl rfl
    apply hskipped.others rfl
    rw [List.mem_cons, mem_remove]
    apply Iff.intro
    · rintro (heq | hmem)
      · exact absurd heq.symm hne
      · exact hmem.1
    · exact fun hmem => .inr ⟨hmem, Ne.symm hne⟩

theorem filter_frame (frame : WsFrame) (id : Nat) :
    (some frame).toList.filter (·.connId = id) = if frame.connId = id then [frame] else [] := by
  by_cases heq : frame.connId = id
  · rw [if_pos heq]
    exact List.filter_cons_of_pos (decide_eq_true heq)
  · rw [if_neg heq]
    exact List.filter_cons_of_neg (by simpa using heq)

theorem Routed.hold (h : Routed dispatched none wsFrameSenders frame.connId conn)
    (hmem : frame.connId ∈ wsFrameSenders) : Routed (dispatched ++ [.wsFrame frame]) (some frame)
      wsFrameSenders frame.connId conn := by
  have hdrop := h.drop_concat (.wsFrame frame)
  have hframe : (DataChannelMessage.wsFrame frame).frameFor frame.connId = some frame := if_pos rfl
  constructor
  · exact h.opened_concat _
  · exact h.part_concat _
  · intro hreceiver
    have hopen := (h.active hreceiver).mp hmem
    rw [hdrop, framesUntilClose_open hopen, hframe, ← h.whole hreceiver, filter_frame, if_pos rfl]
    exact congrArg (· ++ _) (List.append_nil _).symm
  · intro hreceiver
    rw [hdrop, h.active hreceiver]
    apply Iff.intro
    · intro hall m hm
      cases List.mem_append.mp hm with
      | inl hm => exact hall m hm
      | inr hm => exact List.mem_singleton.mp hm ▸ rfl
    · exact fun hall m hm => hall m (List.mem_append_left _ hm)

theorem Routed.deliver
    (h : Routed dispatched (some frame) wsFrameSenders frame.connId conn) (hreceiver : conn.receiver) :
    Routed dispatched none wsFrameSenders frame.connId
      { conn with channel := conn.channel ++ [frame] } := by
  have hwhole := h.whole hreceiver
  rw [filter_frame, if_pos rfl, List.append_assoc] at hwhole
  constructor
  · exact h.opened
  · exact hwhole ▸ List.prefix_rfl
  · intro _
    exact (List.append_nil _).trans hwhole
  · exact h.active

namespace World

theorem Routing.hold (h : w.Routing) (hhand : w.hand = none)
    (hmem : frame.connId ∈ w.wsFrameSenders) :
    { w with
      hand := some frame
      dispatched := w.dispatched ++ [DataChannelMessage.wsFrame frame] }.Routing := by
  intro id conn hconn
  have hrouted := h id conn hconn
  rw [hhand] at hrouted
  by_cases heq : frame.connId = id
  · cases heq
    exact hrouted.hold hmem
  · have hskipped : Routed (w.dispatched ++ [.wsFrame frame]) none w.wsFrameSenders id conn :=
      hrouted.skip (if_neg heq) rfl
    apply hskipped.others
    · rw [filter_frame, if_neg heq]
      rfl
    · exact Iff.rfl

theorem Routing.deliver (h : w.Routing) : w.deliver.Routing := by
  unfold World.deliver
  split
  · next frame hhand =>
    have hother {id : Nat} {conn : WsConnection} (hne : frame.connId ≠ id)
        (hconn : w.connection id = some conn) :
        Routed w.dispatched none w.wsFrameSenders id conn := by
      apply (h id conn hconn).others
      · rw [hhand, filter_frame, if_neg hne]
        rfl
      · exact Iff.rfl
    unfold sendFrame
    dsimp only
    split
    · next conn hfound =>
      have hconn : w.connection frame.connId = some conn := hfound
      have hrouted := h frame.connId conn hconn
      rw [hhand] at hrouted
      split
      · next hreceiver =>
        split
        · intro other conn' hconn'
          rw [connection_modify] at hconn'
          split at hconn'
          · next heq =>
            cases heq
            obtain ⟨call', hcall', hnew⟩ := Option.bind_eq_some_iff.mp hconn'
            obtain ⟨call, _, heq⟩ := Option.map_eq_some_iff.mp hcall'
            rw [← heq] at hnew
            cases hnew
            exact hrouted.deliver hreceiver
          · next hne => exact hother hne hconn'
        · exact h.same (fun _ => rfl) rfl hhand.symm rfl
      · next hdeaf =>
        intro other conn' hconn'
        change w.connection other = some conn' at hconn'
        by_cases heq : frame.connId = other
        · cases heq
          rw [hconn] at hconn'
          cases hconn'
          exact hrouted.deaf (Bool.eq_false_iff.mpr hdeaf)
        · apply (hother heq hconn').others rfl
          rw [mem_remove]
          exact and_iff_left (Ne.symm heq)
    · next hnone =>
      intro other conn hconn
      apply hother _ hconn
      intro heq
      change w.connection other = some conn at hconn
      rw [← heq] at hconn
      cases hnone.symm.trans hconn
  · exact h

theorem sendFrame_hold (hhand : w.hand = none)
    (dispatched : List DataChannelMessage) : { w.sendFrame frame with dispatched := dispatched } =
      { w with hand := some frame, dispatched := dispatched }.deliver := by
  rw [sendFrame_dispatched]
  obtain ⟨⟩ := w
  cases hhand
  rfl

theorem Routing.dispatchMessage (h : w.Routing) (hhand : w.hand = none)
    (message : DataChannelMessage) :
    { w.dispatchMessage message with dispatched := w.dispatched ++ [message] }.Routing := by
  cases message with
  | httpResponse id body =>
    unfold World.dispatchMessage
    dsimp only
    split
    · have hframes := complete_frames id (.response body)
        { w with pendingHttp := remove id w.pendingHttp }
      have hconnection (other : Nat) := complete_connection id other (.response body)
        { w with pendingHttp := remove id w.pendingHttp }
      exact h.skip hconnection hframes.1 hframes.2.1 (fun _ => rfl) fun _ => rfl
    · exact h.skip (fun _ => rfl) rfl rfl (fun _ => rfl) fun _ => rfl
  | wsOpened connId selectedProtocol =>
    unfold World.dispatchMessage
    dsimp only
    split
    · exact h.connect hhand selectedProtocol _
    · exact h.skip (fun _ => rfl) rfl rfl (fun _ => rfl) fun _ => rfl
  | wsFrame frame =>
    unfold World.dispatchMessage
    dsimp only
    split
    · next hmem =>
      rw [sendFrame_hold hhand]
      exact (h.hold hhand hmem).deliver
    · next hmem =>
      intro id conn hconn
      have hrouted := h id conn hconn
      by_cases heq : frame.connId = id
      · cases heq
        exact hrouted.missed hmem _
      · exact hrouted.skip (if_neg heq) rfl
  | wsClose connId =>
    exact h.close connId (.wsClose connId) (fun _ => rfl) fun _ => rfl
  | wsError connId error =>
    unfold World.dispatchMessage
    dsimp only
    split
    · have hframes := complete_frames connId (.rejected error)
        { w with pendingWsOpen := remove connId w.pendingWsOpen }
      have hconnection (other : Nat) := complete_connection connId other (.rejected error)
        { w with pendingWsOpen := remove connId w.pendingWsOpen }
      have hcompleted := h.same hconnection hframes.2.2 hframes.1 hframes.2.1
      have hclosed := hcompleted.close connId (.wsError connId error) (fun _ => rfl) fun _ => rfl
      rw [hframes.2.2] at hclosed
      exact hclosed
    · exact h.close connId (.wsError connId error) (fun _ => rfl) fun _ => rfl
  | other => exact h.skip (fun _ => rfl) rfl rfl (fun _ => rfl) fun _ => rfl

theorem Routing.dispatch (h : w.Routing) : w.dispatch.Routing := by
  unfold World.dispatch
  split
  · next message incoming hhand _ =>
    have htaken : { w with incoming := incoming }.Routing := h
    have hmessage : ({ w with incoming := incoming }.dispatchMessage message).dispatched =
        w.dispatched := dispatchMessage_dispatched _ _
    dsimp only
    rw [hmessage]
    exact htaken.dispatchMessage hhand message
  · exact h

theorem Routing.start (h : w.Routing) (kind : CallKind) (data : List UInt8) :
    (w.start kind data).Routing := by
  unfold World.start
  split
  · intro id conn hconn
    apply h id conn
    obtain ⟨call, hcall, hfound⟩ := Option.bind_eq_some_iff.mp hconn
    change (w.calls ++ [_])[id]? = some call at hcall
    by_cases hid : id < w.calls.length
    · rw [List.getElem?_append_left hid] at hcall
      exact Option.bind_eq_some_iff.mpr ⟨call, hcall, hfound⟩
    · rw [List.getElem?_append_right (Nat.le_of_not_lt hid)] at hcall
      rw [List.mem_singleton.mp (List.mem_of_getElem? hcall)] at hfound
      cases hfound
  · exact h

theorem Routing.writeFailed (h : w.Routing) (call : Option Nat) :
    (w.writeFailed call).Routing := by
  cases call with
  | none => exact h
  | some id =>
    unfold World.writeFailed
    dsimp only
    split
    · have hremoved : { w with
          writer := .idle
          pendingHttp := remove id w.pendingHttp
          pendingWsOpen := remove id w.pendingWsOpen }.Routing := h
      exact hremoved.modify (Call.reply_connection .failed)
    · exact h

theorem Routing.step (h : w.Routing) (event : Event) : (w.step event).Routing := by
  cases event with
  | dcOpen =>
    unfold World.step
    dsimp only
    split <;> exact h
  | ice | cancelToken | disconnect => exact h
  | start kind data => exact h.start kind data
  | enqueue id =>
    change (w.enqueue id).Routing
    unfold enqueue
    split
    · split
      · exact h.modify fun _ => rfl
      · exact h.modify fun _ => rfl
    · exact h
  | take id =>
    change (w.take id).Routing
    unfold take
    split
    · dsimp only
      split <;> exact h.modify fun _ => rfl
    · exact h
  | giveUp id =>
    change (w.giveUp id).Routing
    unfold giveUp
    split
    · exact h.modify fun _ => rfl
    · exact h
  | abandon id =>
    apply h.owner _ fun _ _ _ _ hrouted => hrouted.drop
    intro call
    unfold Call.abandon
    split
    · exact .inl rfl
    · exact .inr rfl
  | dropReceiver id => exact h.owner (fun _ => .inr rfl) fun _ _ _ _ hrouted => hrouted.drop
  | recv id => exact h.owner (fun _ => .inr rfl) fun _ _ _ _ hrouted => hrouted.recv
  | queueWrite data =>
    unfold World.step
    dsimp only
    split <;> exact h
  | takeCommand =>
    change w.takeCommand.Routing
    unfold takeCommand
    split
    · split <;> exact h
    · exact h
  | takeData =>
    change w.takeData.Routing
    unfold takeData
    split <;> exact h
  | writeChunk ok =>
    change (w.writeChunk ok).Routing
    unfold writeChunk
    split
    · split
      · dsimp only
        split <;> exact h
      · exact h.writeFailed _
    · exact h
  | stopWriter =>
    change w.stopWriter.Routing
    unfold stopWriter
    split <;> exact h
  | receive message =>
    unfold World.step
    dsimp only
    split <;> exact h
  | dispatch => exact h.dispatch
  | deliver => exact h.deliver

end World

end Cdesktop.WebRtc
