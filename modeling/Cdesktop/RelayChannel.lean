import Cdesktop.RelayWs
import Cdesktop.Run
import Cdesktop.Strokes
import Mathlib.Logic.Function.Basic

namespace Cdesktop.RelayWs
open RelaySigning
set_option autoImplicit true

inductive Side where
  | client
  | server
deriving DecidableEq

def Side.peer : Side → Side
  | .client => .server
  | .server => .client

structure Channel where
  lib : Libraries
  json : Json
  sig : RequestSignature
  key : Side → VerifyingKey

structure World where
  sockets : Side → SignedWebSocket
  encoded : Side → List (RelayWsFrame × List UInt8)
  accepted : Side → List RelayWsFrame
  signed : List (VerifyingKey × List UInt8)

def Channel.new (c : Channel) : World :=
  { sockets := fun side => SignedWebSocket.new c.sig (c.key side) (c.key side.peer)
    encoded := fun _ => []
    accepted := fun _ => []
    signed := [] }

inductive Event where
  | send (side : Side) (message : Message)
  | sign (side : Side) (message : List UInt8)
  /-- The network gives any frame at all to a side. -/
  | deliver (side : Side) (frame : RelayWsFrame)

def Received.accepted : Received → List RelayWsFrame
  | .message frame _ => [frame]
  | .skipped | .closed | .refused _ => []

def Channel.send (c : Channel) (w : World) (side : Side) (message : Message) : World :=
  let frame := message.intoFrame
  let signer := (w.sockets side).signer
  let seq := saturatingSucc signer.outboundSeq
  let sent := (w.sockets side).send c.lib c.json message
  { w with
    sockets := Function.update w.sockets side sent.1
    encoded := Function.update w.encoded side (w.encoded side ++ [(frame, sent.2.payload)])
    signed := (signer.signing, utf8 (wsSigningInput c.lib signer.requestSignature seq frame.msgType
      frame.payload)) :: w.signed }

def Channel.deliver (c : Channel) (w : World) (side : Side) (frame : RelayWsFrame) : World :=
  let received := (w.sockets side).recv c.lib c.json frame
  { w with
    sockets := Function.update w.sockets side received.1
    accepted := Function.update w.accepted side (w.accepted side ++ received.2.accepted) }

def Channel.exec (c : Channel) (w : World) : Event → World
  | .send side message => c.send w side message
  | .sign side message => { w with signed := (c.key side, message) :: w.signed }
  | .deliver side frame => c.deliver w side frame

/-- The frame has no signature of a key but of what was signed with it, and no payload with the hash
of another one that the peer sent. -/
structure Unforged (c : Channel) (w : World) (side : Side) (raw : List UInt8) : Prop where
  signed : ∀ envelope payload signature,
    Presents c.lib c.json c.sig raw envelope payload signature →
    let message := utf8 (wsSigningInput c.lib c.sig envelope.seq envelope.msgType payload)
    c.lib.verify (c.key side.peer) message signature = true →
    (c.key side.peer, message) ∈ w.signed
  hashed : ∀ envelope payload signature,
    Presents c.lib c.json c.sig raw envelope payload signature →
    ∀ sent ∈ w.encoded side.peer, c.lib.sha256 payload = c.lib.sha256 sent.1.payload →
      payload = sent.1.payload

/-- What is assumed of a step. -/
def Allowed (c : Channel) (w : World) : Event → Prop
  | .send side _ => (w.encoded side).length + 1 < u64Max
  | .sign _ message => ¬ IsSigningInput c.lib c.sig message
  | .deliver side frame => Unforged c w side frame.payload

def Channel.envelope (c : Channel) (side : Side) (seq : Nat) (frame : RelayWsFrame) :
    SignedWsEnvelope :=
  (⟨c.sig, 0, c.key side⟩ : WsFrameSigner).envelope c.lib seq frame

def Names (c : Channel) (message : List UInt8) (i : Nat) (frame : RelayWsFrame) : Prop :=
  message = utf8 (wsSigningInput c.lib c.sig (i + 1) frame.msgType frame.payload)

structure Inv (c : Channel) (w : World) : Prop where
  signer : ∀ side, (w.sockets side).signer = ⟨c.sig, (w.encoded side).length, c.key side⟩
  verifier : ∀ side, (w.sockets side).verifier =
    ⟨c.sig, (w.accepted side).length, c.key side.peer⟩
  bound : ∀ side, (w.encoded side).length < u64Max
  signed : ∀ key message, (key, message) ∈ w.signed → IsSigningInput c.lib c.sig message →
    ∃ side i sent, c.key side = key ∧ (w.encoded side)[i]? = some sent ∧ Names c message i sent.1
  wire : ∀ side i sent, (w.encoded side)[i]? = some sent →
    sent.2 = c.json.toVec (c.envelope side (i + 1) sent.1)
  inOrder : ∀ side, w.accepted side <+: (w.encoded side.peer).map (·.1)
  messages : ∀ side, ∀ sent ∈ w.encoded side, ∃ message : Message, sent.1 = message.intoFrame

theorem saturatingSucc_of_lt (h : n < u64Max) : saturatingSucc n = n + 1 :=
  Nat.min_eq_left h

theorem Inv.new (c : Channel) : Inv c c.new := by
  constructor
  · intro side
    rfl
  · intro side
    rfl
  · intro side
    have hpos : 0 < u64Max := by decide
    exact hpos
  · intro key message hmem
    cases hmem
  · intro side i sent hget
    cases hget
  · intro side
    exact List.nil_prefix
  · intro side sent hmem
    cases hmem

theorem getElem?_concat {l : List α} {x y : α} (h : (l ++ [x])[i]? = some y) :
    l[i]? = some y ∨ i = l.length ∧ y = x := by
  rcases Nat.lt_trichotomy i l.length with hlt | heq | hgt
  · left
    rw [List.getElem?_append_left hlt] at h
    exact h
  · right
    subst heq
    rw [List.getElem?_concat_length] at h
    exact ⟨rfl, (Option.some.inj h).symm⟩
  · have hlength : (l ++ [x]).length ≤ i := by
      rw [List.length_append, List.length_singleton]
      exact hgt
    rw [List.getElem?_eq_none hlength] at h
    cases h

theorem concat_prefix_of {l m : List α} {x : α} (h : l <+: m) (hx : m[l.length]? = some x) :
    l ++ [x] <+: m := by
  obtain ⟨rest, rfl⟩ := h
  cases rest with
  | nil => simp at hx
  | cons y rest =>
    rw [List.getElem?_append_right (Nat.le_refl _), Nat.sub_self] at hx
    cases hx
    exact ⟨rest, by simp⟩

section Send
variable {c : Channel} {w : World} (side : Side) (message : Message)

theorem send_encoded_self : (c.send w side message).encoded side =
    w.encoded side ++ [(message.intoFrame, ((w.sockets side).send c.lib c.json message).2.payload)] :=
  Function.update_self ..

theorem send_encoded_ne {side' : Side} (h : side' ≠ side) :
    (c.send w side message).encoded side' = w.encoded side' := Function.update_of_ne h ..

theorem send_sockets_self : (c.send w side message).sockets side =
    ((w.sockets side).send c.lib c.json message).1 := Function.update_self ..

theorem send_sockets_ne {side' : Side} (h : side' ≠ side) :
    (c.send w side message).sockets side' = w.sockets side' := Function.update_of_ne h ..

theorem send_verifier (side' : Side) :
    ((c.send w side message).sockets side').verifier = (w.sockets side').verifier := by
  by_cases h : side' = side
  · subst h
    rw [send_sockets_self]
    rfl
  · rw [send_sockets_ne side message h]

theorem send_encoded_getElem? {side' : Side} {i : Nat} {sent : RelayWsFrame × List UInt8}
    (h : (w.encoded side')[i]? = some sent) :
    ((c.send w side message).encoded side')[i]? = some sent := by
  by_cases hside : side' = side
  · subst hside
    rw [send_encoded_self, List.getElem?_append_left]
    · exact h
    · exact (List.getElem?_eq_some_iff.mp h).1
  · rw [send_encoded_ne side message hside]
    exact h

theorem send_encoded_grows (side' : Side) :
    (w.encoded side').map (·.1) <+: ((c.send w side message).encoded side').map (·.1) := by
  by_cases hside : side' = side
  · subst hside
    rw [send_encoded_self, List.map_append]
    exact List.prefix_append ..
  · rw [send_encoded_ne side message hside]

end Send

theorem Inv.send (h : Inv c w) (hbound : (w.encoded side).length + 1 < u64Max)
    (message : Message) : Inv c (c.send w side message) := by
  have hsigner := h.signer side
  have hseq : saturatingSucc (w.sockets side).signer.outboundSeq = (w.encoded side).length + 1 := by
    rw [hsigner]
    exact saturatingSucc_of_lt (h.bound side)
  constructor
  · intro side'
    by_cases hside : side' = side
    · subst hside
      rw [send_sockets_self, send_encoded_self, List.length_append, List.length_singleton]
      rw [SignedWebSocket.send, WsFrameSigner.encode]
      dsimp only
      rw [hseq, hsigner]
    · rw [send_sockets_ne side message hside, send_encoded_ne side message hside]
      exact h.signer side'
  · intro side'
    rw [send_verifier]
    exact h.verifier side'
  · intro side'
    by_cases hside : side' = side
    · subst hside
      rw [send_encoded_self, List.length_append, List.length_singleton]
      exact hbound
    · rw [send_encoded_ne side message hside]
      exact h.bound side'
  · intro key bytes hmem hinput
    rcases List.mem_cons.mp hmem with heq | hold
    · obtain ⟨hkey, hbytes⟩ := Prod.mk.inj heq
      rw [hsigner] at hkey hbytes
      have hget : ((c.send w side message).encoded side)[(w.encoded side).length]? =
          some (message.intoFrame, ((w.sockets side).send c.lib c.json message).2.payload) := by
        rw [send_encoded_self]
        exact List.getElem?_concat_length
      have hnames : Names c bytes (w.encoded side).length message.intoFrame := by
        rw [Names, hbytes]
        dsimp only
        rw [saturatingSucc_of_lt (h.bound side)]
      exact ⟨side, _, _, hkey.symm, hget, hnames⟩
    · obtain ⟨side', i, sent, hkey, hget, hnames⟩ := h.signed key bytes hold hinput
      exact ⟨side', i, sent, hkey, send_encoded_getElem? side message hget, hnames⟩
  · intro side' i sent hget
    by_cases hside : side' = side
    · subst hside
      rw [send_encoded_self] at hget
      rcases getElem?_concat hget with hold | ⟨hi, hsent⟩
      · exact h.wire side' i sent hold
      · subst hi
        subst hsent
        rw [SignedWebSocket.send, WsFrameSigner.encode]
        dsimp only
        rw [hseq, hsigner]
        rfl
    · rw [send_encoded_ne side message hside] at hget
      exact h.wire side' i sent hget
  · intro side'
    exact (h.inOrder side').trans (send_encoded_grows side message side'.peer)
  · intro side' sent hmem
    by_cases hside : side' = side
    · subst hside
      rw [send_encoded_self, List.mem_append, List.mem_singleton] at hmem
      rcases hmem with hold | rfl
      · exact h.messages side' sent hold
      · exact ⟨message, rfl⟩
    · rw [send_encoded_ne side message hside] at hmem
      exact h.messages side' sent hmem

theorem Inv.sign (h : Inv c w) (hmessage : ¬ IsSigningInput c.lib c.sig message) :
    Inv c { w with signed := (key, message) :: w.signed } := by
  constructor
  · exact h.signer
  · exact h.verifier
  · exact h.bound
  · intro key' message' hmem hinput
    rcases List.mem_cons.mp hmem with heq | hold
    · obtain ⟨-, hsame⟩ := Prod.mk.inj heq
      exact (hmessage (hsame ▸ hinput)).elim
    · exact h.signed key' message' hold hinput
  · exact h.wire
  · exact h.inOrder
  · exact h.messages

theorem Inv.accepted_length_lt (h : Inv c w) (side : Side) :
    (w.accepted side).length < u64Max := by
  have hle := (h.inOrder side).length_le
  rw [List.length_map] at hle
  exact Nat.lt_of_le_of_lt hle (h.bound side.peer)

theorem key_inj {c : Channel} (hkeys : c.key .client ≠ c.key .server)
    (h : c.key side = c.key side') : side = side' := by
  cases side with
  | client =>
    cases side' with
    | client => rfl
    | server => exact (hkeys h).elim
  | server =>
    cases side' with
    | client => exact (hkeys h.symm).elim
    | server => rfl

theorem Inv.next {verifier : WsFrameVerifier} (hlib : c.lib.Lawful) (hkeys : c.key .client ≠ c.key .server) (h : Inv c w)
    (hunforged : Unforged c w side raw)
    (hdecode : (w.sockets side).verifier.decode c.lib c.json raw = (verifier, .ok frame)) :
    (w.encoded side.peer)[(w.accepted side).length]?.map (·.1) = some frame ∧
      verifier = ⟨c.sig, (w.accepted side).length + 1, c.key side.peer⟩ := by
  obtain ⟨envelope, signature, hpresents, hseq, htype, hverify, hverifier⟩ := decode_ok hdecode
  rw [h.verifier side] at hpresents hseq hverify hverifier
  dsimp only at hpresents hseq hverify hverifier
  rw [saturatingSucc_of_lt (h.accepted_length_lt side)] at hseq
  have hsigned := hunforged.signed envelope frame.payload signature hpresents hverify
  obtain ⟨side', i, sent, hkey, hget, hnames⟩ :=
    h.signed _ _ hsigned ⟨_, _, _, rfl⟩
  have hside := key_inj hkeys hkey
  subst hside
  obtain ⟨-, -, hi, htype', hhash⟩ := wsSigningInput_inj hlib (utf8_injective hnames)
  have hindex : i = (w.accepted side).length := by omega
  have hpayload := hunforged.hashed envelope frame.payload signature hpresents sent
    (List.mem_of_getElem? hget) hhash
  rw [hverifier, hseq, ← hindex, hget]
  refine ⟨?_, by rw [hindex]⟩
  obtain ⟨msgType, payload⟩ := frame
  obtain ⟨⟨msgType', payload'⟩, bytes⟩ := sent
  dsimp only at htype htype' hpayload
  rw [Option.map_some, ← htype', htype, ← hpayload]

theorem deliver_unchanged {c : Channel} {w : World}
    (h : ∀ decoded message, ((w.sockets side).recv c.lib c.json frame).2 ≠ .message decoded message) :
    c.deliver w side frame = w := by
  rcases SignedWebSocket.recv_cases c.lib c.json (w.sockets side) frame with
    ⟨verifier, decoded, hdecode, hrecv⟩ | ⟨hsame, -⟩
  · rw [hrecv] at h
    exact (h _ _ rfl).elim
  · have haccepted : ((w.sockets side).recv c.lib c.json frame).2.accepted = [] := by
      cases hreceived : ((w.sockets side).recv c.lib c.json frame).2 with
      | skipped => rfl
      | closed => rfl
      | refused e => rfl
      | message decoded message => exact (h decoded message hreceived).elim
    rw [Channel.deliver, hsame, haccepted, List.append_nil, Function.update_eq_self,
      Function.update_eq_self]

theorem Inv.deliver (hlib : c.lib.Lawful) (hkeys : c.key .client ≠ c.key .server) (h : Inv c w)
    (hunforged : Unforged c w side frame.payload) : Inv c (c.deliver w side frame) := by
  rcases SignedWebSocket.recv_cases c.lib c.json (w.sockets side) frame with
    ⟨verifier, decoded, hdecode, hrecv⟩ | ⟨-, hnone⟩
  · obtain ⟨hnext, hverifier⟩ := h.next hlib hkeys hunforged hdecode
    have hworld : c.deliver w side frame =
        { w with
          sockets := Function.update w.sockets side { w.sockets side with verifier }
          accepted := Function.update w.accepted side (w.accepted side ++ [decoded]) } := by
      rw [Channel.deliver, hrecv]
      rfl
    rw [hworld]
    constructor
    · intro side'
      by_cases hside : side' = side
      · subst hside
        dsimp only
        rw [Function.update_self]
        exact h.signer side'
      · dsimp only
        rw [Function.update_of_ne hside]
        exact h.signer side'
    · intro side'
      by_cases hside : side' = side
      · subst hside
        dsimp only
        rw [Function.update_self, Function.update_self, List.length_append, List.length_singleton]
        exact hverifier
      · dsimp only
        rw [Function.update_of_ne hside, Function.update_of_ne hside]
        exact h.verifier side'
    · exact h.bound
    · exact h.signed
    · exact h.wire
    · intro side'
      by_cases hside : side' = side
      · subst hside
        dsimp only
        rw [Function.update_self]
        apply concat_prefix_of (h.inOrder side')
        rw [List.getElem?_map]
        exact hnext
      · dsimp only
        rw [Function.update_of_ne hside]
        exact h.inOrder side'
    · exact h.messages
  · rw [deliver_unchanged hnone]
    exact h

theorem Inv.exec (hlib : c.lib.Lawful) (hkeys : c.key .client ≠ c.key .server) (h : Inv c w)
    (hallowed : Allowed c w event) : Inv c (c.exec w event) := by
  cases event with
  | send side message => exact h.send hallowed message
  | sign side message => exact h.sign hallowed
  | deliver side frame => exact h.deliver hlib hkeys hallowed

theorem Inv.run (hlib : c.lib.Lawful) (hkeys : c.key .client ≠ c.key .server)
    (h : Run.Each c.exec (Allowed c) c.new events) : Inv c (Run.run c.exec c.new events) :=
  Run.Each.preserves (fun _ _ h hallowed => h.exec hlib hkeys hallowed) (Inv.new c) h

/-- What is promised of a channel, whatever the network gives to its two sides. -/
structure Secure (c : Channel) (w : World) : Prop where
  /-- The frames that a side accepts are the first ones that its peer encoded. -/
  inOrder : ∀ side, w.accepted side <+: (w.encoded side.peer).map (·.1)
  /-- They are those of messages, which come out as they were sent. -/
  messages : ∀ side, ∀ frame ∈ w.accepted side, ∃ message : Message,
    frame = message.intoFrame ∧ Message.tryFromFrame frame = .ok message.delivered
  /-- A frame that is not accepted changes nothing. -/
  unchanged : ∀ side frame,
    (∀ decoded message, ((w.sockets side).recv c.lib c.json frame).2 ≠ .message decoded message) →
    c.deliver w side frame = w
  next : ∀ side frame bytes, (w.encoded side.peer)[(w.accepted side).length]? = some (frame, bytes) →
    ((w.sockets side).recv c.lib c.json ⟨.binary, bytes⟩).2 =
      .message frame (Message.tryFromFrame frame)

theorem Inv.secure (hlib : c.lib.Lawful) (hjson : c.json.Lawful) (h : Inv c w) : Secure c w := by
  constructor
  · exact h.inOrder
  · intro side frame hmem
    obtain ⟨sent, hsent, rfl⟩ := List.mem_map.mp ((h.inOrder side).subset hmem)
    obtain ⟨message, heq⟩ := h.messages side.peer sent hsent
    exact ⟨message, heq, by rw [heq, message.tryFromFrame_intoFrame]⟩
  · intro side frame hnone
    exact deliver_unchanged hnone
  · intro side frame bytes hget
    have hwire := h.wire side.peer _ _ hget
    dsimp only at hwire
    have hseq : (w.accepted side).length + 1 =
        saturatingSucc (w.sockets side).verifier.inboundSeq := by
      rw [h.verifier, saturatingSucc_of_lt (h.accepted_length_lt side)]
    rw [SignedWebSocket.recv]
    dsimp only
    rw [hwire, Channel.envelope,
      decode_envelope hlib hjson (by rw [h.verifier]) (by rw [h.verifier]) hseq]

theorem unforged_of_signed {c : Channel} {w : World} {side : Side} {frame : RelayWsFrame}
    (hlib : c.lib.Lawful) (hjson : c.json.Lawful) (hseq : seq < 2 ^ 64)
    (hsigned : (c.key side.peer, utf8 (wsSigningInput c.lib c.sig seq frame.msgType frame.payload)) ∈
      w.signed)
    (hhash : ∀ sent ∈ w.encoded side.peer, c.lib.sha256 frame.payload =
      c.lib.sha256 sent.1.payload → frame.payload = sent.1.payload) :
    Unforged c w side (c.json.toVec (c.envelope side.peer seq frame)) := by
  have hparsed : c.json.fromSlice (c.json.toVec (c.envelope side.peer seq frame)) =
      some (c.envelope side.peer seq frame) :=
    hjson _ (by decide : envelopeVersion < 2 ^ 8) hseq
  have hpayload : ∀ envelope payload signature, Presents c.lib c.json c.sig
      (c.json.toVec (c.envelope side.peer seq frame)) envelope payload signature →
      envelope = c.envelope side.peer seq frame ∧ payload = frame.payload := by
    intro envelope payload signature h
    have henvelope := h.parsed
    rw [hparsed] at henvelope
    cases henvelope
    have hdecoded := h.payload
    rw [Channel.envelope, WsFrameSigner.envelope, hlib.decode_encode] at hdecoded
    exact ⟨rfl, (Option.some.inj hdecoded).symm⟩
  constructor
  · intro envelope payload signature h
    obtain ⟨henvelope, hsame⟩ := hpayload envelope payload signature h
    subst henvelope
    subst hsame
    intro message _
    exact hsigned
  · intro envelope payload signature h
    obtain ⟨-, hsame⟩ := hpayload envelope payload signature h
    subst hsame
    exact hhash

def clientKey : VerifyingKey :=
  [0xd7, 0x5a, 0x98, 0x01, 0x82, 0xb1, 0x0a, 0xb7, 0xd5, 0x4b, 0xfe, 0xd3, 0xc9, 0x64, 0x07, 0x3a,
    0x0e, 0xe1, 0x72, 0xf3, 0xda, 0xa6, 0x23, 0x25, 0xaf, 0x02, 0x1a, 0x68, 0xf7, 0x07, 0x51, 0x1a]

def serverKey : VerifyingKey :=
  [0x3d, 0x40, 0x17, 0xc3, 0xe8, 0x43, 0x89, 0x5a, 0x92, 0xb7, 0x0a, 0xa7, 0x4d, 0x1b, 0x7e, 0xbc,
    0x9c, 0x98, 0x2c, 0xcf, 0x2e, 0xc4, 0x96, 0x8c, 0xc0, 0xcd, 0x55, 0xf1, 0x2a, 0xf4, 0x66, 0x0c]

def hello : List UInt8 := [104, 101, 108, 108, 111]

def helloHash : List UInt8 :=
  [44, 242, 77, 186, 95, 176, 163, 14, 38, 232, 59, 42, 197, 185, 226, 158, 27, 22, 30, 92, 31, 167,
    66, 94, 115, 4, 51, 98, 147, 139, 152, 36]

def helloInput : String :=
  "v1|00000000-0000-0000-0000-000000000001|00000000-0000-0000-0000-000000000002|1|text|" ++
    "LPJNul+wow4m6DsqxbninhsWHlwfp0JecwQzYpOLmCQ="

def helloSignature : Signature :=
  [34, 6, 103, 247, 76, 214, 146, 148, 221, 192, 118, 53, 118, 211, 125, 15, 113, 28, 10, 126, 225,
    159, 32, 187, 216, 204, 251, 199, 79, 4, 250, 55, 140, 199, 35, 126, 63, 220, 125, 191, 175, 194,
    234, 52, 11, 235, 74, 190, 149, 19, 28, 187, 248, 198, 134, 142, 188, 224, 85, 139, 58, 20, 222,
    7]

def helloEnvelope : SignedWsEnvelope :=
  { version := 1
    seq := 1
    msgType := .text
    payloadB64 := "aGVsbG8="
    signatureB64 :=
      "IgZn90zWkpTdwHY1dtN9D3EcCn7hnyC72Mz7x08E+jeMxyN+P9x9v6/C6jQL60q+lRMcu/jGho684FWLOhTeBw==" }

def base64Texts : List (List UInt8 × String) :=
  [(hello, helloEnvelope.payloadB64), (helloSignature, helloEnvelope.signatureB64),
    (helloHash, "LPJNul+wow4m6DsqxbninhsWHlwfp0JecwQzYpOLmCQ=")]

def envelopeTexts : List (SignedWsEnvelope × String) :=
  [(helloEnvelope, "\x7b\"version\":1,\"seq\":1,\"msg_type\":\"text\",\"payload_b64\":\"" ++
    helloEnvelope.payloadB64 ++ "\",\"signature_b64\":\"" ++ helloEnvelope.signatureB64 ++ "\"\x7d")]

def sampleLibraries : Libraries :=
  { encode := Strokes.text base64Texts
    decode := Strokes.read base64Texts
    sha256 := fun bytes => if bytes = hello then helloHash else List.replicate 32 0
    signatureFromSlice := fun bytes => if bytes.length = 64 then some bytes else none
    sign := fun key message =>
      if key = clientKey ∧ message = utf8 helloInput then helloSignature else List.replicate 64 0
    verify := fun key message signature =>
      signature =
        if key = clientKey ∧ message = utf8 helloInput then helloSignature
        else List.replicate 64 0 }

instance : Encodable RelayWsMessageType :=
  Encodable.ofLeftInverse (fun msgType => msgType.ctorIdx)
    (fun n => [.text, .binary, .ping, .pong, .close].getD n .text)
    fun msgType => by cases msgType <;> rfl

instance : Encodable SignedWsEnvelope :=
  Encodable.ofLeftInverse
    (fun envelope => (envelope.version, envelope.seq, envelope.msgType, envelope.payloadB64,
      envelope.signatureB64))
    (fun fields => ⟨fields.1, fields.2.1, fields.2.2.1, fields.2.2.2.1, fields.2.2.2.2⟩)
    fun _ => rfl

def sampleJson : Json :=
  { toVec := fun envelope => utf8 (Strokes.text envelopeTexts envelope)
    fromSlice := fun bytes => (fromUtf8 bytes).bind (Strokes.read envelopeTexts) }

theorem base64Texts_good : Strokes.Good base64Texts := by
  constructor
  · decide +kernel
  · decide +kernel

theorem envelopeTexts_good : Strokes.Good envelopeTexts := by
  constructor
  · decide +kernel
  · decide +kernel

theorem sampleLibraries_lawful : sampleLibraries.Lawful := by
  constructor
  · intro bytes
    exact Strokes.read_text base64Texts_good bytes
  · intro bytes
    have hfree : ∀ entry ∈ base64Texts, '|' ∉ entry.2.toList := by decide +kernel
    exact Strokes.not_mem_text (by decide) hfree bytes
  · intro key message
    rw [sampleLibraries]
    dsimp only
    split
    · rfl
    · rfl
  · intro key message
    rw [sampleLibraries]
    exact decide_eq_true rfl

theorem sampleJson_lawful : sampleJson.Lawful := by
  intro envelope _ _
  rw [sampleJson]
  dsimp only
  rw [fromUtf8_utf8]
  exact Strokes.read_text envelopeTexts_good envelope

def sampleChannel : Channel :=
  { lib := sampleLibraries
    json := sampleJson
    sig := ⟨1, 1700000000, 2, ""⟩
    key := fun side => match side with
      | .client => clientKey
      | .server => serverKey }

example : sampleChannel.envelope .client 1 ⟨.text, utf8 "hello"⟩ = helloEnvelope := by
  decide +kernel

/-- However the network drops, repeats, reorders and makes up frames: what a side accepts is the
first part of what its peer sent, and what it does not accept does not stop the rest. -/
theorem channel_secure (c : Channel) (events : List Event) (hlib : c.lib.Lawful)
    (hjson : c.json.Lawful) (hkeys : c.key .client ≠ c.key .server)
    (h : Run.Each c.exec (Allowed c) c.new events) : Secure c (Run.run c.exec c.new events) :=
  (Inv.run hlib hkeys h).secure hlib hjson

def replay : List Event :=
  let raw := sampleJson.toVec (sampleChannel.envelope .client 1 ⟨.text, utf8 "hello"⟩)
  [.send .client (.text "hello"), .deliver .server ⟨.binary, raw⟩, .deliver .server ⟨.binary, raw⟩]

theorem channel_secure_sample :
    Secure sampleChannel (Run.run sampleChannel.exec sampleChannel.new replay) := by
  apply channel_secure
  · exact sampleLibraries_lawful
  · exact sampleJson_lawful
  · decide
  · have hdeliver : ∀ w : World, w.encoded .client =
          [(⟨.text, utf8 "hello"⟩,
            sampleJson.toVec (sampleChannel.envelope .client 1 ⟨.text, utf8 "hello"⟩))] →
        (clientKey, utf8 (wsSigningInput sampleLibraries sampleChannel.sig 1 .text (utf8 "hello"))) ∈
          w.signed →
        Unforged sampleChannel w .server
          (sampleJson.toVec (sampleChannel.envelope .client 1 ⟨.text, utf8 "hello"⟩)) := by
      intro w hencoded hsigned
      apply unforged_of_signed sampleLibraries_lawful sampleJson_lawful
      · decide
      · exact hsigned
      · intro sent hsent _
        have heq : sent ∈ w.encoded .client := hsent
        rw [hencoded, List.mem_singleton] at heq
        rw [heq]
    refine ⟨?_, ?_, ?_, trivial⟩
    · have hlt : 0 + 1 < u64Max := by decide
      exact hlt
    · exact hdeliver _ rfl List.mem_cons_self
    · exact hdeliver _ rfl List.mem_cons_self

end Cdesktop.RelayWs
