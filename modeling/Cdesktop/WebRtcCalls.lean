import Cdesktop.WebRtcClient

/-! Which message completes which call. -/

namespace Cdesktop.WebRtc
set_option autoImplicit true

/-- The call that the message is for, and what it tells it. -/
def DataChannelMessage.answer : DataChannelMessage → Option (CallKind × Nat × Reply)
  | .httpResponse id body => some (.http, id, .response body)
  | .wsOpened connId selectedProtocol => some (.wsOpen, connId, .opened selectedProtocol)
  | .wsError connId error => some (.wsOpen, connId, .rejected error)
  | _ => none

def Phase.reply : Phase → Option Reply
  | .ready reply => some reply
  | .finished reply => reply
  | _ => none

def Phase.settled : Phase → Bool
  | .ready _ | .finished _ => true
  | _ => false

def World.kind (w : World) (id : Nat) : Option CallKind := w.calls[id]?.map (·.kind)

/-- Each completion is by a message for that call, no call has two, and a reply of the peer has
come by one. -/
structure World.Correlated (w : World) : Prop where
  completed : ∀ c ∈ w.completions, ∃ message kind reply, w.dispatched[c.message]? = some message ∧
    message.answer = some (kind, c.call, reply) ∧ w.kind c.call = some kind
  once : (w.completions.map (·.call)).Nodup
  answered : ∀ id call reply, w.calls[id]? = some call → call.phase.reply = some reply →
    reply ≠ .failed → ∃ c ∈ w.completions, c.call = id ∧ ∃ message,
      w.dispatched[c.message]? = some message ∧ message.answer = some (call.kind, id, reply)

structure World.Pending (w : World) : Prop where
  http : ∀ id ∈ w.pendingHttp, w.kind id = some .http
  wsOpen : ∀ id ∈ w.pendingWsOpen, w.kind id = some .wsOpen
  settled : ∀ c ∈ w.completions, ∃ call, w.calls[c.call]? = some call ∧ call.phase.settled
  correlated : w.Correlated

structure Call.Goes (call call' : Call) : Prop where
  kind : call'.kind = call.kind
  settled : call.phase.settled → call'.phase.settled
  reply : ∀ reply, reply ≠ .failed → call'.phase.reply = some reply → call.phase.reply = some reply

structure World.Follows (w w' : World) : Prop where
  goes : ∀ (id : Nat) (call : Call), w.calls[id]? = some call →
    ∃ call', w'.calls[id]? = some call' ∧ call.Goes call'
  fresh : ∀ (id : Nat) (call' : Call), w'.calls[id]? = some call' → w.calls[id]? = none →
    call'.phase.reply = none

variable {w w' : World} {id : Nat} {ofKind : CallKind} {phase : Phase} {reply : Reply}

theorem Call.Goes.refl (call : Call) : call.Goes call :=
  ⟨rfl, fun hsettled => hsettled, fun _ _ hreply => hreply⟩

theorem World.Follows.same (h : w'.calls = w.calls) : w.Follows w' := by
  apply World.Follows.mk
  · intro id call hcall
    exact ⟨call, h ▸ hcall, .refl call⟩
  · intro id call' hcall hnone
    rw [h, hnone] at hcall
    cases hcall

theorem World.modify_get (w : World) (id : Nat) (f : Call → Call) (other : Nat) :
    (w.modify id f).calls[other]? = w.calls[other]?.map (if id = other then f else (·)) := by
  unfold World.modify
  rw [List.getElem?_modify]
  split <;> rfl

theorem World.Follows.modify {f : Call → Call}
    (h : ∀ call, w.calls[id]? = some call → call.Goes (f call)) : w.Follows (w.modify id f) := by
  apply World.Follows.mk
  · intro other call hcall
    rw [modify_get, hcall]
    by_cases heq : id = other
    · rw [if_pos heq]
      exact ⟨f call, rfl, h call (heq ▸ hcall)⟩
    · rw [if_neg heq]
      exact ⟨call, rfl, .refl call⟩
  · intro other call' hcall hnone
    rw [modify_get, hnone] at hcall
    cases hcall

theorem World.Follows.kind (h : w.Follows w') (hkind : w.kind id = some ofKind) :
    w'.kind id = some ofKind := by
  obtain ⟨call, hcall, heq⟩ := Option.map_eq_some_iff.mp hkind
  obtain ⟨call', hcall', hgoes⟩ := h.goes id call hcall
  unfold World.kind
  rw [hcall', ← heq, ← hgoes.kind]
  rfl

theorem World.kind_modify (w : World) (id other : Nat) {f : Call → Call}
    (h : ∀ call, (f call).kind = call.kind) : (w.modify id f).kind other = w.kind other := by
  unfold World.kind
  rw [modify_get]
  cases w.calls[other]? with
  | none => rfl
  | some call =>
    by_cases heq : id = other
    · rw [if_pos heq]
      exact congrArg some (h call)
    · rw [if_neg heq]
      rfl

theorem Call.reply_kind (reply : Reply) (call : Call) : (call.reply reply).kind = call.kind := by
  unfold Call.reply
  split <;> rfl

theorem World.Pending.frame (h : w.Pending) (hfollows : w.Follows w')
    (hhttp : ∀ id ∈ w'.pendingHttp, id ∈ w.pendingHttp)
    (hwsOpen : ∀ id ∈ w'.pendingWsOpen, id ∈ w.pendingWsOpen)
    (hcompletions : w'.completions = w.completions) (hdispatched : w'.dispatched = w.dispatched) :
    w'.Pending := by
  constructor
  · intro id hid
    exact hfollows.kind (h.http id (hhttp id hid))
  · intro id hid
    exact hfollows.kind (h.wsOpen id (hwsOpen id hid))
  · intro c hc
    rw [hcompletions] at hc
    obtain ⟨call, hcall, hsettled⟩ := h.settled c hc
    obtain ⟨call', hcall', hgoes⟩ := hfollows.goes c.call call hcall
    exact ⟨call', hcall', hgoes.settled hsettled⟩
  · constructor
    · intro c hc
      rw [hcompletions] at hc
      obtain ⟨message, kind, reply, hmessage, hanswer, hkind⟩ := h.correlated.completed c hc
      exact ⟨message, kind, reply, hdispatched ▸ hmessage, hanswer, hfollows.kind hkind⟩
    · rw [hcompletions]
      exact h.correlated.once
    · intro id call' reply hcall' hreply hne
      cases hcall : w.calls[id]? with
      | none =>
        rw [hfollows.fresh id call' hcall' hcall] at hreply
        cases hreply
      | some call =>
        obtain ⟨other, hother, hgoes⟩ := hfollows.goes id call hcall
        rw [hcall'] at hother
        cases hother
        rw [hcompletions, hdispatched, hgoes.kind]
        exact h.correlated.answered id call reply hcall (hgoes.reply reply hne hreply) hne

theorem World.phase_eq (h : w.phase id = some phase) :
    ∃ call, w.calls[id]? = some call ∧ call.phase = phase :=
  Option.map_eq_some_iff.mp h

theorem getElem?_concat {l : List α} {i : Nat} (h : l[i]? = some x) (y : α) : (l ++ [y])[i]? = some x := by
  rw [List.getElem?_append_left (List.getElem?_eq_some_iff.mp h).1, h]

theorem World.Pending.skip (h : World.Pending w) (message : DataChannelMessage) :
    { w with dispatched := w.dispatched ++ [message] }.Pending := by
  constructor
  · exact h.http
  · exact h.wsOpen
  · exact h.settled
  · constructor
    · intro c hc
      obtain ⟨m, kind, reply, hm, hanswer, hkind⟩ := h.correlated.completed c hc
      exact ⟨m, kind, reply, getElem?_concat hm message, hanswer, hkind⟩
    · exact h.correlated.once
    · intro id call reply hcall hreply hne
      obtain ⟨c, hc, hid, m, hm, hanswer⟩ := h.correlated.answered id call reply hcall hreply hne
      exact ⟨c, hc, hid, m, getElem?_concat hm message, hanswer⟩

theorem World.Pending.complete (h : World.Pending w) (message : DataChannelMessage)
    (hanswer : message.answer = some (ofKind, id, reply)) (hkind : w.kind id = some ofKind) :
    { w.complete id reply with dispatched := w.dispatched ++ [message] }.Pending := by
  unfold World.complete
  split
  · next hwaiting =>
    obtain ⟨call, hcall, hphase⟩ := World.phase_eq hwaiting
    have hunsettled : call.phase.settled = false := by
      rw [hphase]
      rfl
    have hnot : ∀ c ∈ w.completions, c.call ≠ id := by
      intro c hc heq
      obtain ⟨other, hother, hsettled⟩ := h.settled c hc
      rw [heq, hcall] at hother
      cases hother
      rw [hunsettled] at hsettled
      cases hsettled
    have hget := w.modify_get id (·.reply reply)
    have hreplied : (w.modify id (·.reply reply)).calls[id]? =
        some { call with phase := .ready reply } := by
      rw [hget, if_pos rfl, hcall]
      exact congrArg some (if_pos hphase)
    have hkinds (other : Nat) : (w.modify id (·.reply reply)).kind other = w.kind other :=
      w.kind_modify id other (Call.reply_kind reply)
    constructor
    · intro other hother
      exact (hkinds other).trans (h.http other hother)
    · intro other hother
      exact (hkinds other).trans (h.wsOpen other hother)
    · intro c hc
      cases List.mem_append.mp hc with
      | inl hc =>
        obtain ⟨other, hother, hsettled⟩ := h.settled c hc
        have hkept : (w.modify id (·.reply reply)).calls[c.call]? = some other := by
          rw [hget, if_neg (hnot c hc).symm, hother]
          rfl
        exact ⟨other, hkept, hsettled⟩
      | inr hc =>
        rw [List.mem_singleton.mp hc]
        exact ⟨_, hreplied, rfl⟩
    · constructor
      · intro c hc
        cases List.mem_append.mp hc with
        | inl hc =>
          obtain ⟨m, kind, r, hm, hr, hk⟩ := h.correlated.completed c hc
          exact ⟨m, kind, r, getElem?_concat hm message, hr, (hkinds _).trans hk⟩
        | inr hc =>
          rw [List.mem_singleton.mp hc]
          exact ⟨message, ofKind, reply, List.getElem?_concat_length, hanswer, (hkinds _).trans hkind⟩
      · change ((w.completions ++ [_]).map _).Nodup
        rw [List.map_append, List.map_singleton]
        apply List.nodup_append.mpr ⟨h.correlated.once, List.nodup_singleton _, _⟩
        intro other hother
        obtain ⟨c, hc, heq⟩ := List.mem_map.mp hother
        intro last hlast
        rw [List.mem_singleton.mp hlast, ← heq]
        exact hnot c hc
      · intro other found r hfound hr hne
        change (w.modify id (·.reply reply)).calls[other]? = some found at hfound
        by_cases heq : id = other
        · cases heq
          rw [hreplied] at hfound
          cases hfound
          cases hr
          have hof : call.kind = ofKind := Option.some.inj ((congrArg _ hcall).symm.trans hkind)
          rw [← hof] at hanswer
          exact ⟨_, List.mem_append_right _ List.mem_cons_self, rfl, message,
            List.getElem?_concat_length, hanswer⟩
        · rw [hget, if_neg heq] at hfound
          obtain ⟨before, hbefore, hsame⟩ := Option.map_eq_some_iff.mp hfound
          cases hsame
          obtain ⟨c, hc, hid, m, hm, hans⟩ := h.correlated.answered other _ r hbefore hr hne
          exact ⟨c, List.mem_append_left _ hc, hid, m, getElem?_concat hm message, hans⟩
  · exact h.skip message

theorem World.Pending.same (h : w.Pending)
    (hsame : (w'.calls, w'.pendingHttp, w'.pendingWsOpen, w'.completions, w'.dispatched) =
      (w.calls, w.pendingHttp, w.pendingWsOpen, w.completions, w.dispatched)) : w'.Pending := by
  simp only [Prod.mk.injEq] at hsame
  obtain ⟨hcalls, hhttp, hwsOpen, hcompletions, hdispatched⟩ := hsame
  apply h.frame (.same hcalls) _ _ hcompletions hdispatched
  · intro other hother
    exact hhttp ▸ hother
  · intro other hother
    exact hwsOpen ▸ hother

theorem World.Pending.modify (h : w.Pending) {f : Call → Call}
    (hgoes : ∀ call, w.calls[id]? = some call → call.Goes (f call)) : (w.modify id f).Pending :=
  h.frame (.modify hgoes) (fun _ hother => hother) (fun _ hother => hother) rfl rfl

theorem World.Pending.disconnect (h : w.Pending) : w.disconnect.Pending :=
  h.same rfl

theorem Call.goes_silent {call : Call} (hphase : phase.reply = none ∨ phase.reply = some .failed)
    (hsettled : call.phase.settled → phase.settled) : call.Goes { call with phase := phase } := by
  constructor
  · rfl
  · exact hsettled
  · intro reply hne hreply
    change phase.reply = some reply at hreply
    cases hphase with
    | inl hnone =>
      rw [hnone] at hreply
      cases hreply
    | inr hfailed =>
      rw [hfailed] at hreply
      exact absurd (Option.some.inj hreply).symm hne

theorem Call.goes_finish (call : Call) : call.Goes (call.finish none) :=
  call.goes_silent (.inl rfl) fun _ => rfl

theorem Call.goes_failed (call : Call) : call.Goes (call.reply .failed) := by
  unfold Call.reply
  split
  · exact call.goes_silent (.inr rfl) fun _ => rfl
  · exact .refl call

theorem Call.goes_abandon (call : Call) : call.Goes call.abandon := by
  unfold Call.abandon
  split
  · exact .refl call
  · constructor
    · rfl
    · exact fun _ => rfl
    · intro reply _ hreply
      cases hreply

theorem Call.goes_connection (call : Call) (connection : Option WsConnection) :
    call.Goes { call with connection := connection } :=
  ⟨rfl, fun hsettled => hsettled, fun _ _ hreply => hreply⟩

theorem World.connect_kind (w : World) (id other : Nat) : (w.connect id).kind other = w.kind other :=
  w.kind_modify id other fun _ => rfl

theorem World.Pending.connect (h : w.Pending) (id : Nat) : (w.connect id).Pending :=
  h.modify fun call _ => call.goes_connection _

theorem World.Pending.start (h : w.Pending) (kind : CallKind) (data : List UInt8) :
    (w.start kind data).Pending := by
  unfold World.start
  split
  · have hfollows : w.Follows { w with calls := w.calls ++ [⟨kind, data, .starting, none⟩] } := by
      apply World.Follows.mk
      · intro other call hcall
        exact ⟨call, getElem?_concat hcall _, .refl call⟩
      · intro other call hcall hnone
        have hlength := List.getElem?_eq_none_iff.mp hnone
        change (w.calls ++ [_])[other]? = some call at hcall
        rw [List.getElem?_append_right hlength] at hcall
        have hmem := List.mem_of_getElem? hcall
        rw [List.mem_singleton.mp hmem]
        rfl
    exact h.frame hfollows (fun _ hother => hother) (fun _ hother => hother) rfl rfl
  · exact h

theorem World.Pending.enqueue (h : w.Pending) (id : Nat) : (w.enqueue id).Pending := by
  unfold World.enqueue
  split
  · next hphase =>
    obtain ⟨call, hcall, hstarting⟩ := World.phase_eq hphase
    split
    · exact (h.modify fun call _ => call.goes_finish).disconnect
    · have hwaiting : (w.modify id fun call => { call with phase := .waiting }).Pending := by
        apply h.modify
        intro other hother
        rw [hcall] at hother
        cases hother
        apply call.goes_silent (.inl rfl)
        rw [hstarting]
        nofun
      exact hwaiting.same rfl
  · exact h

theorem World.Pending.take (h : w.Pending) (id : Nat) : (w.take id).Pending := by
  unfold World.take
  split
  · next reply hphase =>
    obtain ⟨call, hcall, hready⟩ := World.phase_eq hphase
    have htaken : (w.modify id (·.finish (some reply))).Pending := by
      apply h.modify
      intro other hother
      rw [hcall] at hother
      cases hother
      constructor
      · rfl
      · exact fun _ => rfl
      · intro r _ hr
        rw [hready]
        exact hr
    dsimp only
    split
    · exact htaken.disconnect
    · exact htaken
  · exact h

theorem World.Pending.giveUp (h : w.Pending) (id : Nat) : (w.giveUp id).Pending := by
  unfold World.giveUp
  split
  · exact (h.modify fun call _ => call.goes_finish).disconnect
  · exact h

theorem mem_of_remove (h : other ∈ remove id ids) : other ∈ ids := (List.mem_filter.mp h).1

theorem World.Pending.takeCommand (h : w.Pending) : w.takeCommand.Pending := by
  unfold World.takeCommand
  split
  · next id cmdQueue _ _ =>
    split
    · next call hcall =>
      have hkind : w.kind id = some call.kind := congrArg (Option.map _) hcall
      constructor
      · intro other hother
        change other ∈ ite _ _ _ at hother
        split at hother
        · next heq =>
          cases List.mem_cons.mp hother with
          | inl hid => exact hid ▸ hkind.trans (congrArg some heq)
          | inr hother => exact h.http other hother
        · exact h.http other hother
      · intro other hother
        change other ∈ ite _ _ _ at hother
        split at hother
        · next heq =>
          cases List.mem_cons.mp hother with
          | inl hid => exact hid ▸ hkind.trans (congrArg some heq)
          | inr hother => exact h.wsOpen other hother
        · exact h.wsOpen other hother
      · exact h.settled
      · exact ⟨h.correlated.completed, h.correlated.once, h.correlated.answered⟩
    · exact h.same rfl
  · exact h

theorem World.Pending.takeData (h : w.Pending) : w.takeData.Pending := by
  unfold World.takeData
  split
  · exact h.same rfl
  · exact h

theorem World.Pending.writeFailed (h : w.Pending) (call : Option Nat) :
    (w.writeFailed call).Pending := by
  have hidle : { w with writer := .idle }.Pending := h.same rfl
  cases call with
  | none => exact hidle
  | some id =>
    unfold World.writeFailed
    dsimp only
    split
    · apply World.Pending.modify _ fun call _ => call.goes_failed
      exact hidle.frame (.same rfl) (fun _ => mem_of_remove) (fun _ => mem_of_remove) rfl rfl
    · exact hidle

theorem World.Pending.writeChunk (h : w.Pending) (ok : Bool) : (w.writeChunk ok).Pending := by
  unfold World.writeChunk
  split
  · split
    · dsimp only
      split
      · exact h.same rfl
      · exact h.same rfl
    · exact h.writeFailed _
  · exact h

theorem World.Pending.stopWriter (h : w.Pending) : w.stopWriter.Pending := by
  unfold World.stopWriter
  split
  · exact h.same rfl
  · exact h

theorem World.Pending.sendFrame (h : w.Pending) (frame : WsFrame) : (w.sendFrame frame).Pending := by
  unfold World.sendFrame
  split
  · split
    · split
      · exact h.modify fun call _ => call.goes_connection _
      · exact h.same rfl
    · exact h.same rfl
  · exact h

theorem World.sendFrame_dispatched (frame : WsFrame) (dispatched : List DataChannelMessage)
    (w : World) : { w.sendFrame frame with dispatched := dispatched } =
      { w with dispatched := dispatched }.sendFrame frame := by
  unfold World.sendFrame
  dsimp only
  split
  · split
    · split <;> rfl
    · rfl
  · rfl

theorem World.Pending.deliver (h : w.Pending) : w.deliver.Pending := by
  unfold World.deliver
  split
  · have hempty : { w with hand := none }.Pending := h.same rfl
    exact hempty.sendFrame _
  · exact h

theorem World.complete_eq (id : Nat) (reply : Reply) (w : World) :
    ∃ calls completions, w.complete id reply =
      { w with calls := calls, completions := completions } := by
  unfold World.complete
  split <;> exact ⟨_, _, rfl⟩

theorem World.sendFrame_eq (frame : WsFrame) (w : World) :
    ∃ calls hand wsFrameSenders, w.sendFrame frame =
      { w with calls := calls, hand := hand, wsFrameSenders := wsFrameSenders } ∧
      wsFrameSenders ⊆ w.wsFrameSenders := by
  unfold World.sendFrame
  split
  · split
    · split
      · exact ⟨_, w.hand, w.wsFrameSenders, rfl, List.Subset.refl _⟩
      · exact ⟨w.calls, _, w.wsFrameSenders, rfl, List.Subset.refl _⟩
    · exact ⟨w.calls, w.hand, _, rfl, fun _ => mem_of_remove⟩
  · exact ⟨w.calls, w.hand, w.wsFrameSenders, rfl, List.Subset.refl _⟩

/-- The connections that are open after the message, where each opened message opens one. -/
def DataChannelMessage.after (message : DataChannelMessage) (wsFrameSenders : List Nat) : List Nat :=
  match message with
  | .wsOpened connId _ => connId :: wsFrameSenders
  | .wsClose connId | .wsError connId _ => remove connId wsFrameSenders
  | _ => wsFrameSenders

theorem World.dispatchMessage_eq (w : World) (message : DataChannelMessage) :
    ∃ calls completions pendingHttp pendingWsOpen wsFrameSenders hand,
      w.dispatchMessage message = { w with
        calls := calls, completions := completions, pendingHttp := pendingHttp
        pendingWsOpen := pendingWsOpen, wsFrameSenders := wsFrameSenders, hand := hand } ∧
      wsFrameSenders ⊆ message.after w.wsFrameSenders := by
  cases message with
  | httpResponse id body =>
    unfold World.dispatchMessage
    dsimp only
    split
    · obtain ⟨calls, completions, heq⟩ := World.complete_eq id (.response body)
        { w with pendingHttp := remove id w.pendingHttp }
      rw [heq]
      exact ⟨_, _, _, _, _, _, rfl, List.Subset.refl _⟩
    · exact ⟨_, _, _, _, _, _, rfl, List.Subset.refl _⟩
  | wsOpened connId selectedProtocol =>
    unfold World.dispatchMessage
    dsimp only
    split
    · obtain ⟨calls, completions, heq⟩ := World.complete_eq connId (.opened selectedProtocol)
        ({ w with
          pendingWsOpen := remove connId w.pendingWsOpen
          wsFrameSenders := connId :: remove connId w.wsFrameSenders }.connect connId)
      rw [heq]
      exact ⟨_, _, _, _, _, _, rfl, List.cons_subset_cons connId fun _ => mem_of_remove⟩
    · exact ⟨_, _, _, _, _, _, rfl, List.subset_cons_self _ _⟩
  | wsFrame frame =>
    unfold World.dispatchMessage
    dsimp only
    split
    · obtain ⟨calls, hand, wsFrameSenders, heq, hsenders⟩ := w.sendFrame_eq frame
      rw [heq]
      exact ⟨_, _, _, _, _, _, rfl, hsenders⟩
    · exact ⟨_, _, _, _, _, _, rfl, List.Subset.refl _⟩
  | wsClose connId => exact ⟨_, _, _, _, _, _, rfl, List.Subset.refl _⟩
  | wsError connId error =>
    unfold World.dispatchMessage
    dsimp only
    split
    · obtain ⟨calls, completions, heq⟩ := World.complete_eq connId (.rejected error)
        { w with pendingWsOpen := remove connId w.pendingWsOpen }
      rw [heq]
      exact ⟨_, _, _, _, _, _, rfl, List.Subset.refl _⟩
    · exact ⟨_, _, _, _, _, _, rfl, List.Subset.refl _⟩
  | other => exact ⟨_, _, _, _, _, _, rfl, List.Subset.refl _⟩

theorem World.dispatchMessage_dispatched (w : World) (message : DataChannelMessage) :
    (w.dispatchMessage message).dispatched = w.dispatched := by
  obtain ⟨_, _, _, _, _, _, heq, _⟩ := w.dispatchMessage_eq message
  rw [heq]

theorem World.Pending.dispatchMessage (h : w.Pending) (message : DataChannelMessage) :
    { w.dispatchMessage message with dispatched := w.dispatched ++ [message] }.Pending := by
  cases message with
  | httpResponse id body =>
    unfold World.dispatchMessage
    dsimp only
    split
    · next hpending =>
      have hremoved : { w with pendingHttp := remove id w.pendingHttp }.Pending :=
        h.frame (.same rfl) (fun _ => mem_of_remove) (fun _ hother => hother) rfl rfl
      exact hremoved.complete (.httpResponse id body) rfl (h.http id hpending)
    · exact h.skip _
  | wsOpened connId selectedProtocol =>
    unfold World.dispatchMessage
    dsimp only
    split
    · next hpending =>
      have hremoved : { w with
          pendingWsOpen := remove connId w.pendingWsOpen
          wsFrameSenders := connId :: remove connId w.wsFrameSenders }.Pending :=
        h.frame (.same rfl) (fun _ hother => hother) (fun _ => mem_of_remove) rfl rfl
      apply (hremoved.connect connId).complete (.wsOpened connId selectedProtocol) rfl
      exact (World.connect_kind _ connId connId).trans (h.wsOpen connId hpending)
    · exact h.skip _
  | wsFrame frame =>
    unfold World.dispatchMessage
    dsimp only
    split
    · rw [World.sendFrame_dispatched]
      exact (h.skip (.wsFrame frame)).sendFrame frame
    · exact h.skip _
  | wsClose connId =>
    have hskipped := h.skip (.wsClose connId)
    exact hskipped.same rfl
  | wsError connId error =>
    unfold World.dispatchMessage
    dsimp only
    split
    · next hpending =>
      have hremoved : { w with pendingWsOpen := remove connId w.pendingWsOpen }.Pending :=
        h.frame (.same rfl) (fun _ hother => hother) (fun _ => mem_of_remove) rfl rfl
      have hcompleted := hremoved.complete (.wsError connId error) rfl (h.wsOpen connId hpending)
      exact hcompleted.same rfl
    · have hskipped := h.skip (.wsError connId error)
      exact hskipped.same rfl
  | other => exact h.skip _

theorem World.Pending.dispatch (h : w.Pending) : w.dispatch.Pending := by
  unfold World.dispatch
  split
  · next message incoming _ _ =>
    have htaken : { w with incoming := incoming }.Pending := h.same rfl
    have hmessage : ({ w with incoming := incoming }.dispatchMessage message).dispatched =
        w.dispatched := World.dispatchMessage_dispatched _ _
    dsimp only
    rw [hmessage]
    exact htaken.dispatchMessage message
  · exact h

theorem World.Pending.step (h : w.Pending) (event : Event) : (w.step event).Pending := by
  unfold World.step
  split
  · split
    · exact h
    · exact h.same rfl
  · exact h.same rfl
  · exact h.same rfl
  · exact h.disconnect
  · exact h.start _ _
  · exact h.enqueue _
  · exact h.take _
  · exact h.giveUp _
  · exact h.modify fun call _ => call.goes_abandon
  · exact h.modify fun call _ => call.goes_connection _
  · exact h.modify fun call _ => call.goes_connection _
  · split
    · exact h
    · exact h.same rfl
  · exact h.takeCommand
  · exact h.takeData
  · exact h.writeChunk _
  · exact h.stopWriter
  · split
    · exact h.same rfl
    · exact h
  · exact h.dispatch
  · exact h.deliver

end Cdesktop.WebRtc
