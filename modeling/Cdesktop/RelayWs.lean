import Cdesktop.RelaySigning

namespace Cdesktop.RelayWs
open Fields (join Free)
open RelaySigning
set_option autoImplicit true

inductive RelayWsMessageType where
  | text
  | binary
  | ping
  | pong
  | close
deriving DecidableEq

def RelayWsMessageType.asStr : RelayWsMessageType → String
  | .text => "text"
  | .binary => "binary"
  | .ping => "ping"
  | .pong => "pong"
  | .close => "close"

structure RelayWsFrame where
  msgType : RelayWsMessageType
  payload : List UInt8

structure CloseFrame where
  code : UInt16
  reason : String

/-- A message of either socket. `raw` is `Message::Frame`, which only tungstenite has. -/
inductive Message where
  | text (contents : String)
  | binary (payload : List UInt8)
  | ping (payload : List UInt8)
  | pong (payload : List UInt8)
  | close (frame : Option CloseFrame)
  | raw

def toBeBytes (n : UInt16) : List UInt8 := [UInt8.ofNat (n.toNat / 256), UInt8.ofNat (n.toNat % 256)]

def fromBeBytes (high low : UInt8) : UInt16 := UInt16.ofNat (high.toNat * 256 + low.toNat)

def Message.intoFrame : Message → RelayWsFrame
  | .text contents => ⟨.text, utf8 contents⟩
  | .binary payload => ⟨.binary, payload⟩
  | .ping payload => ⟨.ping, payload⟩
  | .pong payload => ⟨.pong, payload⟩
  | .close none => ⟨.close, []⟩
  | .close (some frame) => ⟨.close, toBeBytes frame.code ++ utf8 frame.reason⟩
  | .raw => ⟨.binary, []⟩

inductive WsError where
  | invalidEnvelope
  | unsupportedVersion
  | invalidSequence (expected got : Nat)
  | invalidPayload
  | invalidSignatureEncoding
  | invalidSignature
  | invalidText
  | invalidClosePayload
  | invalidCloseReason

def Message.tryFromFrame (frame : RelayWsFrame) : Except WsError Message :=
  match frame.msgType with
  | .text =>
    match fromUtf8 frame.payload with
    | none => .error .invalidText
    | some contents => .ok (.text contents)
  | .binary => .ok (.binary frame.payload)
  | .ping => .ok (.ping frame.payload)
  | .pong => .ok (.pong frame.payload)
  | .close =>
    match frame.payload with
    | [] => .ok (.close none)
    | [_] => .error .invalidClosePayload
    | high :: low :: rest =>
      match fromUtf8 rest with
      | none => .error .invalidCloseReason
      | some reason => .ok (.close (some ⟨fromBeBytes high low, reason⟩))

theorem fromBeBytes_toBeBytes (n : UInt16) :
    fromBeBytes (.ofNat (n.toNat / 256)) (.ofNat (n.toNat % 256)) = n := by
  have hhigh : n.toNat / 256 < UInt8.size := Nat.div_lt_of_lt_mul n.toNat_lt
  have hlow : n.toNat % 256 < UInt8.size := Nat.mod_lt _ (by decide)
  rw [fromBeBytes, UInt8.toNat_ofNat_of_lt' hhigh, UInt8.toNat_ofNat_of_lt' hlow, Nat.div_add_mod',
    UInt16.ofNat_toNat]

/-- A raw frame goes out as an empty message. -/
def Message.delivered : Message → Message
  | .raw => .binary []
  | message => message

theorem Message.tryFromFrame_intoFrame (message : Message) :
    tryFromFrame message.intoFrame = .ok message.delivered := by
  cases message with
  | text contents => simp [intoFrame, tryFromFrame, delivered]
  | close frame =>
    cases frame with
    | none => rfl
    | some frame => simp [intoFrame, tryFromFrame, delivered, toBeBytes, fromBeBytes_toBeBytes]
  | _ => rfl

/-- `version` is a `u8` and `seq` a `u64`. -/
structure SignedWsEnvelope where
  version : Nat
  seq : Nat
  msgType : RelayWsMessageType
  payloadB64 : String
  signatureB64 : String
deriving DecidableEq

/-- What is used of the crate for JSON. -/
structure Json where
  toVec : SignedWsEnvelope → List UInt8
  fromSlice : List UInt8 → Option SignedWsEnvelope

def Json.Lawful (json : Json) : Prop :=
  ∀ envelope, envelope.version < 2 ^ 8 → envelope.seq < 2 ^ 64 →
    json.fromSlice (json.toVec envelope) = some envelope

def envelopeVersion : Nat := 1

def u64Max : Nat := 2 ^ 64 - 1

/-- `saturating_add(1)` -/
def saturatingSucc (n : Nat) : Nat := min (n + 1) u64Max

def wsSigningInput (lib : Libraries) (sig : RequestSignature) (seq : Nat)
    (msgType : RelayWsMessageType) (payload : List UInt8) : String :=
  join '|' ["v1", uuidToString sig.signingSessionId, uuidToString sig.nonce, seq.repr,
    msgType.asStr, lib.encode (lib.sha256 payload)]

structure WsFrameSigner where
  requestSignature : RequestSignature
  outboundSeq : Nat
  signing : VerifyingKey

structure WsFrameVerifier where
  requestSignature : RequestSignature
  inboundSeq : Nat
  peerVerifyKey : VerifyingKey

def WsFrameSigner.envelope (lib : Libraries) (signer : WsFrameSigner) (seq : Nat)
    (frame : RelayWsFrame) : SignedWsEnvelope :=
  { version := envelopeVersion
    seq
    msgType := frame.msgType
    payloadB64 := lib.encode frame.payload
    signatureB64 := lib.encode (lib.sign signer.signing
      (utf8 (wsSigningInput lib signer.requestSignature seq frame.msgType frame.payload))) }

def WsFrameSigner.encode (lib : Libraries) (json : Json) (signer : WsFrameSigner)
    (frame : RelayWsFrame) : WsFrameSigner × List UInt8 :=
  let outboundSeq := saturatingSucc signer.outboundSeq
  ({ signer with outboundSeq }, json.toVec (signer.envelope lib outboundSeq frame))

def WsFrameVerifier.decode (lib : Libraries) (json : Json) (verifier : WsFrameVerifier)
    (raw : List UInt8) : WsFrameVerifier × Except WsError RelayWsFrame :=
  match json.fromSlice raw with
  | none => (verifier, .error .invalidEnvelope)
  | some envelope =>
    if envelope.version ≠ envelopeVersion then (verifier, .error .unsupportedVersion)
    else
      let expectedSeq := saturatingSucc verifier.inboundSeq
      if envelope.seq ≠ expectedSeq then
        (verifier, .error (.invalidSequence expectedSeq envelope.seq))
      else
        match lib.decode envelope.payloadB64 with
        | none => (verifier, .error .invalidPayload)
        | some payload =>
          match lib.decode envelope.signatureB64 with
          | none => (verifier, .error .invalidSignatureEncoding)
          | some signatureBytes =>
            match lib.signatureFromSlice signatureBytes with
            | none => (verifier, .error .invalidSignature)
            | some signature =>
              if lib.verify verifier.peerVerifyKey
                  (utf8 (wsSigningInput lib verifier.requestSignature envelope.seq
                    envelope.msgType payload)) signature then
                ({ verifier with inboundSeq := envelope.seq }, .ok ⟨envelope.msgType, payload⟩)
              else (verifier, .error .invalidSignature)

structure SignedWebSocket where
  signer : WsFrameSigner
  verifier : WsFrameVerifier

def SignedWebSocket.new (sig : RequestSignature) (signing peerVerifyKey : VerifyingKey) :
    SignedWebSocket :=
  { signer := ⟨sig, 0, signing⟩
    verifier := ⟨sig, 0, peerVerifyKey⟩ }

/-- `send`, up to the socket below: the frame that is given to it. -/
def SignedWebSocket.send (lib : Libraries) (json : Json) (socket : SignedWebSocket)
    (message : Message) : SignedWebSocket × RelayWsFrame :=
  let encoded := socket.signer.encode lib json message.intoFrame
  ({ socket with signer := encoded.1 }, ⟨.binary, encoded.2⟩)

/-- What `recv` does with a frame of the socket below. -/
inductive Received where
  | skipped
  | closed
  | refused (e : WsError)
  | message (frame : RelayWsFrame) (message : Except WsError Message)

/-- One round of the loop of `recv`. -/
def SignedWebSocket.recv (lib : Libraries) (json : Json) (socket : SignedWebSocket)
    (frame : RelayWsFrame) : SignedWebSocket × Received :=
  match frame.msgType with
  | .ping | .pong => (socket, .skipped)
  | .close => (socket, .closed)
  | .text | .binary =>
    match socket.verifier.decode lib json frame.payload with
    | (verifier, .error e) => ({ socket with verifier }, .refused e)
    | (verifier, .ok decoded) =>
      ({ socket with verifier }, .message decoded (Message.tryFromFrame decoded))

theorem free_v1 : Free '|' "v1" := by
  rw [Free]
  decide

theorem free_refresh : Free '|' "refresh" := by
  rw [Free]
  decide

theorem asStr_free (msgType : RelayWsMessageType) : Free '|' msgType.asStr := by
  cases msgType <;> (rw [Free]; decide)

theorem asStr_inj {msgType msgType' : RelayWsMessageType} (h : msgType.asStr = msgType'.asStr) :
    msgType = msgType' := by
  cases msgType <;> cases msgType' <;> first | rfl | exact absurd h (by decide)

theorem seq_free (seq : Nat) : Free '|' seq.repr := Fields.free_repr (by decide) seq

theorem repr_inj {m n : Nat} (h : m.repr = n.repr) : m = n := by
  have hlist := congrArg String.toList h
  rw [Nat.toList_repr, Nat.toList_repr] at hlist
  rw [← Nat.ofDigitChars_ten_toDigits (n := m), hlist, Nat.ofDigitChars_ten_toDigits]

/-- The input has the session, the nonce, the number, the kind and the hash of the payload in it. -/
theorem wsSigningInput_inj {lib : Libraries} {sig sig' : RequestSignature} (hlib : lib.Lawful)
    (h : wsSigningInput lib sig seq msgType payload =
      wsSigningInput lib sig' seq' msgType' payload') :
    sig.signingSessionId = sig'.signingSessionId ∧ sig.nonce = sig'.nonce ∧ seq = seq' ∧
      msgType = msgType' ∧ lib.sha256 payload = lib.sha256 payload' := by
  rw [wsSigningInput, wsSigningInput] at h
  obtain ⟨-, h⟩ := Fields.join_cons_inj free_v1 free_v1 h
  obtain ⟨hsession, h⟩ := Fields.join_cons_inj (uuidToString_free _) (uuidToString_free _) h
  obtain ⟨hnonce, h⟩ := Fields.join_cons_inj (uuidToString_free _) (uuidToString_free _) h
  obtain ⟨hseq, h⟩ := Fields.join_cons_inj (seq_free _) (seq_free _) h
  obtain ⟨htype, hhash⟩ := Fields.join_cons_inj (asStr_free _) (asStr_free _) h
  have hdecoded := congrArg lib.decode hhash
  rw [join, join, hlib.decode_encode, hlib.decode_encode] at hdecoded
  exact ⟨uuidToString_inj hsession, uuidToString_inj hnonce, repr_inj hseq, asStr_inj htype,
    Option.some.inj hdecoded⟩

/-- The bytes are what is signed for a frame of this session and nonce. -/
def IsSigningInput (lib : Libraries) (sig : RequestSignature) (message : List UInt8) : Prop :=
  ∃ seq msgType payload, message = utf8 (wsSigningInput lib sig seq msgType payload)

theorem not_isSigningInput_of_second {second third : String} {fields : List String}
    (hfree : Free '|' second) (hne : ∀ id, uuidToString id ≠ second) :
    ¬ IsSigningInput lib sig (utf8 (join '|' ("v1" :: second :: third :: fields))) := by
  intro hsigned
  obtain ⟨seq, msgType, payload, heq⟩ := hsigned
  have h := utf8_injective heq
  rw [wsSigningInput] at h
  obtain ⟨-, h⟩ := Fields.join_cons_inj free_v1 free_v1 h
  obtain ⟨hsecond, -⟩ := Fields.join_cons_inj hfree (uuidToString_free _) h
  exact hne _ hsecond.symm

theorem timestamp_free (timestamp : Int) : Free '|' timestamp.repr :=
  Fields.free_intRepr (by decide) (by decide) timestamp

theorem request_not_isSigningInput (lib : Libraries) (sig sig' : RequestSignature)
    (method pathAndQuery : String) (body : List UInt8) :
    ¬ IsSigningInput lib sig
      (utf8 (buildRequestSigningMessage lib sig' method pathAndQuery body)) :=
  not_isSigningInput_of_second (timestamp_free _) fun id => uuidToString_ne_repr id _

theorem response_not_isSigningInput (lib : Libraries) (sig : RequestSignature) (timestamp : Int)
    (status : Nat) (pathAndQuery : String) (session requestNonce responseNonce : RelaySigning.Uuid)
    (body : List UInt8) :
    ¬ IsSigningInput lib sig (utf8 (buildResponseSigningMessage lib timestamp status pathAndQuery
      session requestNonce responseNonce body)) :=
  not_isSigningInput_of_second (timestamp_free _) fun id => uuidToString_ne_repr id _

theorem refresh_not_isSigningInput (lib : Libraries) (sig : RequestSignature) (timestamp : Int)
    (nonce : String) (clientId : RelaySigning.Uuid) :
    ¬ IsSigningInput lib sig (utf8 (buildRefreshMessage timestamp nonce clientId)) :=
  not_isSigningInput_of_second free_refresh uuidToString_ne_refresh

structure Presents (lib : Libraries) (json : Json) (sig : RequestSignature) (raw : List UInt8)
    (envelope : SignedWsEnvelope) (payload : List UInt8) (signature : Signature) : Prop where
  parsed : json.fromSlice raw = some envelope
  payload : lib.decode envelope.payloadB64 = some payload
  signature : (lib.decode envelope.signatureB64).bind lib.signatureFromSlice = some signature

theorem decode_ok {verifier : WsFrameVerifier} {frame : RelayWsFrame}
    (h : verifier.decode lib json raw = (verifier', .ok frame)) :
    ∃ envelope signature,
      Presents lib json verifier.requestSignature raw envelope frame.payload signature ∧
      envelope.seq = saturatingSucc verifier.inboundSeq ∧ envelope.msgType = frame.msgType ∧
      lib.verify verifier.peerVerifyKey (utf8 (wsSigningInput lib verifier.requestSignature
        envelope.seq envelope.msgType frame.payload)) signature = true ∧
      verifier' = { verifier with inboundSeq := envelope.seq } := by
  rw [WsFrameVerifier.decode] at h
  split at h
  · cases h
  · rename_i envelope hparsed
    split at h
    · cases h
    · dsimp only at h
      split at h
      · cases h
      · rename_i hseq
        split at h
        · cases h
        · rename_i payload hpayload
          split at h
          · cases h
          · rename_i signatureBytes hbytes
            split at h
            · cases h
            · rename_i signature hsignature
              split at h
              · rename_i hverify
                cases h
                have hbind : (lib.decode envelope.signatureB64).bind lib.signatureFromSlice =
                    some signature := by
                  rw [hbytes]
                  exact hsignature
                exact ⟨envelope, signature, ⟨hparsed, hpayload, hbind⟩, not_not.mp hseq, rfl,
                  hverify, rfl⟩
              · cases h

theorem decode_error {verifier : WsFrameVerifier}
    (h : verifier.decode lib json raw = (verifier', .error e)) : verifier' = verifier := by
  rw [WsFrameVerifier.decode] at h
  split at h
  · cases h
    rfl
  · split at h
    · cases h
      rfl
    · dsimp only at h
      split at h
      · cases h
        rfl
      · split at h
        · cases h
          rfl
        · split at h
          · cases h
            rfl
          · split at h
            · cases h
              rfl
            · split at h
              · cases h
              · cases h
                rfl

theorem decode_envelope {lib : Libraries} {json : Json} {signer : WsFrameSigner}
    {verifier : WsFrameVerifier} (hlib : lib.Lawful) (hjson : json.Lawful)
    (hsig : verifier.requestSignature = signer.requestSignature)
    (hkey : verifier.peerVerifyKey = signer.signing) (hseq : seq = saturatingSucc verifier.inboundSeq)
    (frame : RelayWsFrame) :
    verifier.decode lib json (json.toVec (signer.envelope lib seq frame)) =
      ({ verifier with inboundSeq := seq }, .ok frame) := by
  have hlt : seq < 2 ^ 64 := by
    rw [hseq, saturatingSucc, u64Max]
    omega
  rw [WsFrameVerifier.decode, hjson _ (by decide : envelopeVersion < 2 ^ 8) hlt]
  dsimp only [WsFrameSigner.envelope]
  rw [if_neg (not_not.mpr rfl), if_neg (not_not.mpr hseq), hlib.decode_encode]
  dsimp only
  rw [hlib.decode_encode]
  dsimp only
  rw [hlib.fromSlice_sign]
  dsimp only
  rw [hsig, hkey, hlib.verify_sign, if_pos rfl]

theorem SignedWebSocket.recv_cases (lib : Libraries) (json : Json) (socket : SignedWebSocket)
    (frame : RelayWsFrame) :
    (∃ verifier decoded,
      socket.verifier.decode lib json frame.payload = (verifier, .ok decoded) ∧
      socket.recv lib json frame =
        ({ socket with verifier }, .message decoded (Message.tryFromFrame decoded))) ∨
    (socket.recv lib json frame).1 = socket ∧
      ∀ decoded message, (socket.recv lib json frame).2 ≠ .message decoded message := by
  obtain ⟨msgType, raw⟩ := frame
  cases hdecode : socket.verifier.decode lib json raw with
  | mk verifier result =>
    cases result with
    | error e =>
      right
      have hsame := decode_error hdecode
      subst hsame
      cases msgType <;> (rw [recv]; dsimp only; try rw [hdecode]) <;> exact ⟨rfl, nofun⟩
    | ok decoded =>
      cases msgType with
      | text =>
        left
        refine ⟨verifier, decoded, rfl, ?_⟩
        rw [recv]
        dsimp only
        rw [hdecode]
      | binary =>
        left
        refine ⟨verifier, decoded, rfl, ?_⟩
        rw [recv]
        dsimp only
        rw [hdecode]
      | ping => exact Or.inr ⟨rfl, nofun⟩
      | pong => exact Or.inr ⟨rfl, nofun⟩
      | close => exact Or.inr ⟨rfl, nofun⟩

end Cdesktop.RelayWs
