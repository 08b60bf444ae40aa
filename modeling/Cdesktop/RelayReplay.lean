import Cdesktop.RelayRefresh

namespace Cdesktop.RelayReplay
open RelaySigning
open RelayRefresh (RefreshRequest)
set_option autoImplicit true

def peerKey : VerifyingKey :=
  [0xd7, 0x5a, 0x98, 0x01, 0x82, 0xb1, 0x0a, 0xb7, 0xd5, 0x4b, 0xfe, 0xd3, 0xc9, 0x64, 0x07, 0x3a,
    0x0e, 0xe1, 0x72, 0xf3, 0xda, 0xa6, 0x23, 0x25, 0xaf, 0x02, 0x1a, 0x68, 0xf7, 0x07, 0x51, 0x1a]

def requestInput : String :=
  "v1|1700000000|GET|/api/config|00000000-0000-0000-0000-000000000001|" ++
    "00000000-0000-0000-0000-000000000002|47DEQpj8HBSa+/TImW+5JCeuQeRkm5NMpJWZG3hSuFU="

def requestSignature : Signature :=
  [25, 4, 89, 14, 208, 201, 246, 240, 113, 32, 199, 137, 129, 36, 141, 253, 54, 133, 232, 241, 234,
    107, 89, 31, 98, 223, 6, 250, 18, 138, 182, 124, 133, 80, 153, 197, 89, 38, 157, 203, 37, 14, 194,
    107, 207, 117, 67, 75, 162, 62, 186, 16, 26, 17, 194, 62, 205, 94, 229, 225, 40, 254, 67, 1]

def requestSignatureB64 : String :=
  "GQRZDtDJ9vBxIMeJgSSN/TaF6PHqa1kfYt8G+hKKtnyFUJnFWSadyyUOwmvPdUNLoj66EBoRwj7NXuXhKP5DAQ=="

def refreshInput : String :=
  "v1|refresh|1700000000|nonce-1|00000000-0000-0000-0000-000000000003"

def refreshSignature : Signature :=
  [208, 252, 163, 178, 231, 168, 38, 152, 235, 93, 234, 37, 58, 128, 240, 214, 76, 196, 220, 32, 20,
    194, 62, 19, 26, 134, 60, 215, 163, 7, 150, 198, 226, 253, 235, 87, 60, 127, 61, 175, 15, 154, 42,
    59, 129, 15, 161, 128, 200, 66, 21, 174, 17, 110, 136, 50, 149, 86, 21, 229, 210, 207, 132, 10]

def refreshSignatureB64 : String :=
  "0PyjsueoJpjrXeolOoDw1kzE3CAUwj4TGoY816MHlsbi/etXPH89rw+aKjuBD6GAyEIVrhFuiDKVVhXl0s+ECg=="

def sampleLibraries : Libraries :=
  { encode := fun bytes =>
      if bytes.length = 32 then "47DEQpj8HBSa+/TImW+5JCeuQeRkm5NMpJWZG3hSuFU=" else ""
    decode := fun s =>
      if s = requestSignatureB64 then some requestSignature
      else if s = refreshSignatureB64 then some refreshSignature
      else none
    sha256 := fun _ =>
      [227, 176, 196, 66, 152, 252, 28, 20, 154, 251, 244, 200, 153, 111, 185, 36, 39, 174, 65, 228,
        100, 155, 147, 76, 164, 149, 153, 27, 120, 82, 184, 85]
    signatureFromSlice := fun bytes => if bytes.length = 64 then some bytes else none
    sign := fun _ message =>
      if message = utf8 requestInput then requestSignature else refreshSignature
    verify := fun key message signature => key = peerKey ∧
      (message = utf8 requestInput ∧ signature = requestSignature ∨
        message = utf8 refreshInput ∧ signature = refreshSignature) }

def sampleEpoch : Nat := secs 1700000000

def request : SignedRequest :=
  { sig := ⟨1, 1700000000, 2, requestSignatureB64⟩
    method := "GET"
    pathAndQuery := "/api/config"
    body := [] }

def refresh : RefreshRequest := ⟨3, 1700000000, "nonce-1", refreshSignatureB64⟩

def forged : RefreshRequest := { refresh with signatureB64 := requestSignatureB64 }

def claim (t : Nat) (request : RefreshRequest) : List RelayRefresh.Event :=
  [.refresh t request, .lookUp t (.ok peerKey), .validate t, .readClock t, .claim t]

/-- Where a request comes to its lock within 59 seconds after the check of its timestamp, what claims
a nonce has a valid signature, and no nonce is signed with two timestamps, a nonce is used once. -/
theorem nonces_used_once (lib : Libraries) (epoch : Nat) (requests : List RelaySigning.Event)
    (refreshes : List RelayRefresh.Event)
    (h : Run.Each (RelaySigning.World.exec lib epoch) (RelaySigning.Timely lib)
      RelaySigning.World.new requests)
    (h' : Run.Each (RelayRefresh.World.exec lib epoch) (RelayRefresh.Timely lib)
      RelayRefresh.World.new refreshes) :
    RelaySigning.Sound epoch
        (Run.run (RelaySigning.World.exec lib epoch) RelaySigning.World.new requests) ∧
      RelayRefresh.Sound epoch
        (Run.run (RelayRefresh.World.exec lib epoch) RelayRefresh.World.new refreshes) :=
  ⟨RelaySigning.run_sound h, RelayRefresh.run_sound h'⟩

def twiceRequested : List RelaySigning.Event :=
  [.register 1 peerKey, .deliver 0 request, .check 0, .locked 0 0 0, .pass (secs 10),
    .deliver 1 request, .check 1, .locked 1 0 0]

def twiceRefreshed : List RelayRefresh.Event :=
  claim 0 refresh ++ .pass (secs 10) :: claim 1 refresh

theorem nonces_used_once_sample :
    RelaySigning.Sound sampleEpoch (Run.run (RelaySigning.World.exec sampleLibraries sampleEpoch)
        RelaySigning.World.new twiceRequested) ∧
      RelayRefresh.Sound sampleEpoch (Run.run (RelayRefresh.World.exec sampleLibraries sampleEpoch)
        RelayRefresh.World.new twiceRefreshed) := by
  apply nonces_used_once
  · decide +kernel
  · decide +kernel

def lateRequested : List RelaySigning.Event :=
  [.register 1 peerKey, .deliver 0 request, .check 0, .deliver 1 request, .check 1, .locked 0 0 0,
    .pass (secs 121), .locked 1 0 0]

def forgedFirst : RelayRefresh.World :=
  Run.run (RelayRefresh.World.exec sampleLibraries sampleEpoch) RelayRefresh.World.new
    (claim 0 forged ++ claim 1 refresh)

/-- The refresh is refused because of a nonce that no request was accepted with; and a request is
accepted twice where it waits for the lock. -/
theorem nonce_consumed_by_forgery :
    forgedFirst.accepted = [] ∧ forgedFirst.refreshNonces "nonce-1" = some 0 ∧
      forgedFirst.calls 0 = some ⟨forged, .answered (.error .unauthorized)⟩ ∧
      forgedFirst.calls 1 = some ⟨refresh, .answered (.error .unauthorized)⟩ ∧
      (Run.run (RelaySigning.World.exec sampleLibraries sampleEpoch) RelaySigning.World.new
        lateRequested).accepted 1 = [⟨2, 1700000000, 0⟩, ⟨2, 1700000000, 0⟩] := by
  decide +kernel

end Cdesktop.RelayReplay
