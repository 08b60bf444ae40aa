import Cdesktop.Fragment
import Cdesktop.Run

/-! The client of a WebRTC data channel: its callers, its writer and its dispatcher. -/

namespace Cdesktop.WebRtc
open Fragment (fragment)
set_option autoImplicit true

structure WsFrame where
  connId : Nat
  data : String
deriving DecidableEq

/-- A message of the peer. The identifier of a call is its number; the peer may send any other. -/
inductive DataChannelMessage where
  | httpResponse (id : Nat) (body : String)
  | wsOpened (connId : Nat) (selectedProtocol : Option String)
  | wsFrame (frame : WsFrame)
  | wsClose (connId : Nat)
  | wsError (connId : Nat) (error : String)
  /-- A request, or what is no message. -/
  | other

inductive CallKind where
  | http | wsOpen
deriving DecidableEq

inductive Reply where
  | response (body : String)
  | opened (selectedProtocol : Option String)
  | rejected (error : String)
  | failed
deriving DecidableEq

inductive Phase where
  /-- The client was connected; the command is not in its queue yet. -/
  | starting
  | waiting
  | ready (reply : Reply)
  | finished (reply : Option Reply)
deriving DecidableEq

structure WsConnection where
  opened : Nat
  /-- The receiver is not dropped. -/
  receiver : Bool
  channel : List WsFrame
  read : List WsFrame
deriving DecidableEq

structure Call where
  kind : CallKind
  data : List UInt8
  phase : Phase
  connection : Option WsConnection

inductive Writer where
  | idle
  /-- For a call, or else for the queue of the connections. -/
  | writing (call : Option Nat) (data : List UInt8) (done rest : List (List UInt8))
  | ended
deriving DecidableEq

structure Completion where
  message : Nat
  call : Nat

inductive IceState where
  | disconnected | failed | closed
deriving DecidableEq

structure World where
  connected : Bool
  cancelled : Bool
  opened : Bool
  /-- A message of the peer may still come. -/
  link : Bool
  calls : List Call
  cmdQueue : List Nat
  dcWriteQueue : List (List UInt8)
  writer : Writer
  pendingHttp : List Nat
  pendingWsOpen : List Nat
  wsFrameSenders : List Nat
  incoming : List DataChannelMessage
  /-- The frame that waits for room in the channel of its connection. -/
  hand : Option WsFrame
  dispatched : List DataChannelMessage
  completions : List Completion
  /-- The chunks that the data channel has taken, and the messages written as a whole. -/
  sent : List (List UInt8)
  written : List (List UInt8)

def World.new : World :=
  { connected := false, cancelled := false, opened := false, link := true, calls := []
    cmdQueue := [], dcWriteQueue := [], writer := .idle, pendingHttp := [], pendingWsOpen := []
    wsFrameSenders := [], incoming := [], hand := none, dispatched := [], completions := []
    sent := [], written := [] }

def frameCapacity : Nat := 64

def World.disconnect (w : World) : World := { w with connected := false, cancelled := true }

def World.modify (id : Nat) (f : Call → Call) (w : World) : World :=
  { w with calls := w.calls.modify id f }

def World.phase (w : World) (id : Nat) : Option Phase := w.calls[id]?.map (·.phase)

def Call.reply (reply : Reply) (call : Call) : Call :=
  if call.phase = .waiting then { call with phase := .ready reply } else call

def World.complete (id : Nat) (reply : Reply) (w : World) : World :=
  if w.phase id = some .waiting then
    { w.modify id (·.reply reply) with
      completions := w.completions ++ [⟨w.dispatched.length, id⟩] }
  else w

def remove (id : Nat) (ids : List Nat) : List Nat := ids.filter (· ≠ id)

/-- The connection as it goes to the call; without a receiver of the reply it is dropped. -/
def World.connect (id : Nat) (w : World) : World :=
  w.modify id fun call =>
    { call with connection := some ⟨w.dispatched.length, call.phase = .waiting, [], []⟩ }

/-- The frame goes to the channel of its connection, as soon as there is room. -/
def World.sendFrame (frame : WsFrame) (w : World) : World :=
  match w.calls[frame.connId]?.bind (·.connection) with
  | some conn =>
    if conn.receiver then
      if conn.channel.length < frameCapacity then
        w.modify frame.connId fun call =>
          { call with connection := some { conn with channel := conn.channel ++ [frame] } }
      else { w with hand := some frame }
    else { w with wsFrameSenders := remove frame.connId w.wsFrameSenders }
  | none => w

def World.dispatchMessage (w : World) : DataChannelMessage → World
  | .httpResponse id body =>
    if id ∈ w.pendingHttp then
      { w with pendingHttp := remove id w.pendingHttp }.complete id (.response body)
    else w
  | .wsOpened connId selectedProtocol =>
    if connId ∈ w.pendingWsOpen then
      ({ w with
        pendingWsOpen := remove connId w.pendingWsOpen
        wsFrameSenders := connId :: remove connId w.wsFrameSenders }.connect connId).complete
        connId (.opened selectedProtocol)
    else w
  | .wsFrame frame => if frame.connId ∈ w.wsFrameSenders then w.sendFrame frame else w
  | .wsClose connId => { w with wsFrameSenders := remove connId w.wsFrameSenders }
  | .wsError connId error =>
    let w :=
      if connId ∈ w.pendingWsOpen then
        { w with pendingWsOpen := remove connId w.pendingWsOpen }.complete connId (.rejected error)
      else w
    { w with wsFrameSenders := remove connId w.wsFrameSenders }
  | .other => w

def World.dispatch (w : World) : World :=
  match w.hand, w.incoming with
  | none, message :: incoming =>
    let w := { w with incoming := incoming }.dispatchMessage message
    { w with dispatched := w.dispatched ++ [message] }
  | _, _ => w

def World.deliver (w : World) : World :=
  match w.hand with
  | some frame => { w with hand := none }.sendFrame frame
  | none => w

/-- The first half of `handle_command`: the call is pending before its first chunk is written. -/
def World.takeCommand (w : World) : World :=
  match w.writer, w.cmdQueue with
  | .idle, id :: cmdQueue =>
    match w.calls[id]? with
    | some call =>
      { w with
        cmdQueue := cmdQueue
        writer := .writing (some id) call.data [] (fragment call.data)
        pendingHttp := if call.kind = .http then id :: w.pendingHttp else w.pendingHttp
        pendingWsOpen := if call.kind = .wsOpen then id :: w.pendingWsOpen else w.pendingWsOpen }
    | none => { w with cmdQueue := cmdQueue }
  | _, _ => w

def World.takeData (w : World) : World :=
  match w.writer, w.dcWriteQueue with
  | .idle, data :: dcWriteQueue =>
    { w with dcWriteQueue := dcWriteQueue, writer := .writing none data [] (fragment data) }
  | _, _ => w

/-- A failed command is reported to its call; of a queued write nobody is told. -/
def World.writeFailed (call : Option Nat) (w : World) : World :=
  let w := { w with writer := .idle }
  match call with
  | some id =>
    if id ∈ w.pendingHttp ∨ id ∈ w.pendingWsOpen then
      { w with
        pendingHttp := remove id w.pendingHttp
        pendingWsOpen := remove id w.pendingWsOpen }.modify id (·.reply .failed)
    else w
  | none => w

/-- One step of `write_to_dc`. A data channel that is not open takes no chunk. -/
def World.writeChunk (ok : Bool) (w : World) : World :=
  match w.writer with
  | .writing call data done (chunk :: rest) =>
    if ok ∧ w.opened then
      let w := { w with sent := w.sent ++ [chunk] }
      if rest.isEmpty then { w with writer := .idle, written := w.written ++ [data] }
      else { w with writer := .writing call data (done ++ [chunk]) rest }
    else w.writeFailed call
  | _ => w

def World.stopWriter (w : World) : World :=
  if w.writer = .idle ∧ w.cancelled then
    { w with writer := .ended, cmdQueue := [], dcWriteQueue := [] }
  else w

def World.start (kind : CallKind) (data : List UInt8) (w : World) : World :=
  if w.connected then { w with calls := w.calls ++ [⟨kind, data, .starting, none⟩] } else w

def Call.finish (reply : Option Reply) (call : Call) : Call := { call with phase := .finished reply }

def World.enqueue (id : Nat) (w : World) : World :=
  if w.phase id = some .starting then
    if w.writer = .ended then (w.modify id (·.finish none)).disconnect
    else
      { w.modify id fun call => { call with phase := .waiting } with
        cmdQueue := w.cmdQueue ++ [id] }
  else w

def World.take (id : Nat) (w : World) : World :=
  match w.phase id with
  | some (.ready reply) =>
    let w := w.modify id (·.finish (some reply))
    if reply = .failed then w.disconnect else w
  | _ => w

/-- The time is up, or the sender of the reply is dropped. -/
def World.giveUp (id : Nat) (w : World) : World :=
  if w.phase id = some .waiting then (w.modify id (·.finish none)).disconnect else w

def Call.abandon (call : Call) : Call :=
  match call.phase with
  | .finished _ => call
  | _ =>
    { call with
      phase := .finished none
      connection := call.connection.map ({ · with receiver := false }) }

def World.dropReceiver (id : Nat) (w : World) : World :=
  w.modify id fun call =>
    { call with connection := call.connection.map ({ · with receiver := false }) }

def WsConnection.recv (conn : WsConnection) : WsConnection :=
  match conn.channel with
  | frame :: channel => { conn with channel := channel, read := conn.read ++ [frame] }
  | [] => conn

inductive Event where
  | dcOpen
  | ice (state : IceState)
  | cancelToken
  /-- `shutdown` of the client, or a call that fails in some other way. -/
  | disconnect
  | start (kind : CallKind) (data : List UInt8)
  | enqueue (id : Nat)
  | take (id : Nat)
  | giveUp (id : Nat)
  | abandon (id : Nat)
  | dropReceiver (id : Nat)
  | recv (id : Nat)
  | queueWrite (data : List UInt8)
  | takeCommand
  | takeData
  | writeChunk (ok : Bool)
  | stopWriter
  | receive (message : DataChannelMessage)
  | dispatch
  | deliver

def World.step (w : World) : Event → World
  | .dcOpen => if w.opened then w else { w with opened := true, connected := true }
  | .ice state => { w.disconnect with link := w.link && state = .disconnected }
  | .cancelToken => { w with cancelled := true }
  | .disconnect => w.disconnect
  | .start kind data => w.start kind data
  | .enqueue id => w.enqueue id
  | .take id => w.take id
  | .giveUp id => w.giveUp id
  | .abandon id => w.modify id Call.abandon
  | .dropReceiver id => w.dropReceiver id
  | .recv id =>
    w.modify id fun call => { call with connection := call.connection.map WsConnection.recv }
  | .queueWrite data =>
    if w.writer = .ended then w else { w with dcWriteQueue := w.dcWriteQueue ++ [data] }
  | .takeCommand => w.takeCommand
  | .takeData => w.takeData
  | .writeChunk ok => w.writeChunk ok
  | .stopWriter => w.stopWriter
  | .receive message => if w.link then { w with incoming := w.incoming ++ [message] } else w
  | .dispatch => w.dispatch
  | .deliver => w.deliver

end Cdesktop.WebRtc
