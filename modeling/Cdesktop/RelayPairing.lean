import Cdesktop.RelayRefresh

/-! The pairing of relay clients: the code that the host shows, the key exchange and the proof. -/

namespace Cdesktop.RelayPairing
open RelayRefresh (trim)
open RelaySigning (secs)
open TrustedKeys (TrustedRelayClient parsePublicKeyBase64)
set_option autoImplicit true

abbrev Bytes := List UInt8

inductive ApiError where
  | unauthorized
  | forbidden (message : String)
  | badRequest (message : String)
  | tooManyRequests (message : String)
  | io

structure Libraries extends TrustedKeys.Libraries where
  /-- The shared key and the server's message, with what the server draws for them. -/
  spake2 (enrollmentCode : String) (clientMessage : Bytes) (drawn : Nat) : Option (Bytes × Bytes)
  /-- Without a salt, expanded to 32 bytes. -/
  hkdf (sharedKey info : Bytes) : Bytes
  hmac (key message : Bytes) : Bytes

def enrollmentCodeLength : Nat := 6

def normalizeEnrollmentCode (rawCode : String) : Except ApiError String :=
  let code := (trim rawCode).toList.map Char.toUpper
  if (utf8 (String.ofList code)).length ≠ enrollmentCodeLength then
    .error (.badRequest "Invalid enrollment code length. Expected 6 characters.")
  else if !code.all fun c => c.isUpper || c.isDigit then
    .error (.badRequest "Enrollment code must contain only A-Z and 0-9.")
  else .ok (String.ofList code)

structure Spake2StartOutcome where
  enrollmentCode : String
  sharedKey : Bytes
  serverMessage : Bytes

def startSpake2Enrollment (lib : Libraries) (rawCode clientMessageB64 : String) (drawn : Nat) :
    Except ApiError Spake2StartOutcome := do
  let enrollmentCode ← normalizeEnrollmentCode rawCode
  match lib.decode clientMessageB64 with
  | none => .error (.badRequest "Invalid client_message_b64")
  | some clientMessage =>
    match lib.spake2 enrollmentCode clientMessage drawn with
    | none => .error .unauthorized
    | some (sharedKey, serverMessage) => .ok ⟨enrollmentCode, sharedKey, serverMessage⟩

def deriveConfirmationKey (lib : Libraries) (sharedKey : Bytes) : Bytes :=
  lib.hkdf sharedKey (utf8 "key-confirmation")

/-- `Uuid::as_bytes` -/
def asBytes (id : Uuid) : Bytes := (List.range 16).reverse.map fun i => .ofNat (id / 256 ^ i)

def verifyClientProof (lib : Libraries) (sharedKey : Bytes) (enrollmentId : Uuid)
    (publicKey : Bytes) (providedProofB64 : String) : Bool :=
  (lib.decode providedProofB64).any fun providedProof =>
    lib.hmac (deriveConfirmationKey lib sharedKey) (utf8 "vk-spake2-client-proof-v2" ++
      asBytes enrollmentId ++ publicKey) = providedProof

structure PendingPakeEnrollment where
  sharedKey : Bytes
  createdAt : Nat

/-- An exchange of keys that a request has made. -/
structure Exchange where
  request : Nat
  outcome : Spake2StartOutcome
  enrollmentId : Uuid
  createdAt : Nat

structure Pairing where
  request : Nat
  enrollmentId : Uuid
  client : TrustedRelayClient
  clientProofB64 : String
  takenAt : Nat

/-- The runtime with its clock. -/
structure Runtime where
  now : Nat
  enrollmentCode : Option String
  pakeEnrollments : Uuid → Option PendingPakeEnrollment
  /-- The codes that were set, newest first, and those that were consumed, with the requests. -/
  shown : List String
  consumed : List (String × Nat)
  exchanges : List Exchange
  taken : List (Uuid × Nat)
  pairings : List Pairing

def pakeEnrollmentTtl : Nat := secs (5 * 60)

namespace Runtime

def getOrSetEnrollmentCode (rt : Runtime) (newCode : String) : String × Runtime :=
  match rt.enrollmentCode with
  | some code => (code, rt)
  | none => (newCode, { rt with enrollmentCode := some newCode, shown := newCode :: rt.shown })

def consumeEnrollmentCode (rt : Runtime) (code : String) (t : Nat) : Option Runtime :=
  if rt.enrollmentCode = some code then
    some { rt with enrollmentCode := none, consumed := (code, t) :: rt.consumed }
  else none

def storePakeEnrollment (rt : Runtime) (x : Exchange) : Runtime :=
  { rt with
    pakeEnrollments := Function.update rt.pakeEnrollments x.enrollmentId
      (some ⟨x.outcome.sharedKey, x.createdAt⟩)
    exchanges := x :: rt.exchanges }

def takePakeEnrollment (rt : Runtime) (enrollmentId : Uuid) (t : Nat) : Option Bytes × Runtime :=
  match rt.pakeEnrollments enrollmentId with
  | none => (none, rt)
  | some enrollment =>
    (if rt.now - enrollment.createdAt > pakeEnrollmentTtl then none else some enrollment.sharedKey,
      { rt with
        pakeEnrollments := Function.update rt.pakeEnrollments enrollmentId none
        taken := (enrollmentId, t) :: rt.taken })

end Runtime

/-- The header has a value that is a text, or none. -/
def isRelayRequest (header : Option String) : Bool :=
  header.any fun value => trim value == "1"

inductive Request where
  | generate (header : Option String) (newCode : String)
  | start (rawCode clientMessageB64 : String) (drawn : Nat)
  | finish (enrollmentId : Uuid) (client : TrustedRelayClient) (clientProofB64 : String)

inductive Response where
  | code (enrollmentCode : String)
  | started (enrollmentId : Uuid) (serverMessage : Bytes)
  | paired

/-- A request between the locks that it takes. -/
inductive Phase where
  | received
  | admitted
  | exchanged (outcome : Spake2StartOutcome)
  | consumed (outcome : Spake2StartOutcome)
  /-- The client's proof is right, and the client is to be stored. -/
  | proved (pairing : Pairing)
  | answered (answer : Except ApiError Response)
  | gone

/-- The next step of a request, with the id that it may draw, and what the rate limit or the file of
the clients answers to it. -/
def serve (lib : Libraries) (t : Nat) (id : Uuid) (answer : Except ApiError Unit) (rt : Runtime) :
    Request → Phase → Phase × Runtime
  | .generate header _, .received =>
    if isRelayRequest header then
      (.answered (.error (.forbidden "Enrollment code cannot be fetched over relay.")), rt)
    else
      match answer with
      | .error e => (.answered (.error e), rt)
      | .ok () => (.admitted, rt)
  | .generate _ newCode, .admitted =>
    let (code, rt) := rt.getOrSetEnrollmentCode newCode
    (.answered (.ok (.code code)), rt)
  | .start rawCode clientMessageB64 drawn, .received =>
    match answer.bind fun () => startSpake2Enrollment lib rawCode clientMessageB64 drawn with
    | .error e => (.answered (.error e), rt)
    | .ok outcome => (.exchanged outcome, rt)
  | .start .., .exchanged outcome =>
    match rt.consumeEnrollmentCode outcome.enrollmentCode t with
    | none => (.answered (.error .unauthorized), rt)
    | some rt => (.consumed outcome, rt)
  | .start .., .consumed outcome =>
    -- `Uuid::new_v4` draws an id that there was not before
    if id ∈ rt.exchanges.map Exchange.enrollmentId then (.consumed outcome, rt)
    else
      (.answered (.ok (.started id outcome.serverMessage)),
        rt.storePakeEnrollment ⟨t, outcome, id, rt.now⟩)
  | .finish enrollmentId client clientProofB64, .received =>
    match rt.takePakeEnrollment enrollmentId t with
    | (none, rt) => (.answered (.error .unauthorized), rt)
    | (some sharedKey, rt) =>
      match parsePublicKeyBase64 lib.toLibraries client.publicKeyB64 with
      | .error _ => (.answered (.error (.badRequest "Invalid public_key_b64")), rt)
      | .ok publicKey =>
        if verifyClientProof lib sharedKey enrollmentId publicKey clientProofB64 then
          (.proved ⟨t, enrollmentId, client, clientProofB64, rt.now⟩, rt)
        else (.answered (.error .unauthorized), rt)
  | .finish .., .proved pairing =>
    match answer with
    | .error e => (.answered (.error e), rt)
    | .ok () => (.answered (.ok .paired), { rt with pairings := pairing :: rt.pairings })
  | _, phase => (phase, rt)

structure World where
  rt : Runtime
  calls : Nat → Option (Request × Phase)

inductive Event where
  | pass (time : Nat)
  | request (t : Nat) (request : Request)
  | go (t : Nat) (id : Uuid) (answer : Except ApiError Unit)
  /-- The caller goes away. -/
  | drop (t : Nat)

namespace World

def new : World := ⟨⟨0, none, fun _ => none, [], [], [], [], []⟩, fun _ => none⟩

def set (w : World) (t : Nat) (rt : Runtime) (request : Request) (phase : Phase) : World :=
  ⟨rt, Function.update w.calls t (some (request, phase))⟩

def step (lib : Libraries) (w : World) : Event → World
  | .pass time => { w with rt := { w.rt with now := w.rt.now + time } }
  | .request t request => if (w.calls t).isNone then w.set t w.rt request .received else w
  | .go t id answer =>
    match w.calls t with
    | none => w
    | some (request, phase) =>
      let (phase, rt) := serve lib t id answer w.rt request phase
      w.set t rt request phase
  | .drop t =>
    match w.calls t with
    | none => w
    | some (request, _) => w.set t w.rt request .gone

def run (lib : Libraries) (w : World) (events : List Event) : World := events.foldl (step lib) w

end World

/-- The outcome is what the exchange makes of its code. -/
def Spake2StartOutcome.Made (lib : Libraries) (outcome : Spake2StartOutcome) : Prop :=
  ∃ clientMessage drawn, lib.spake2 outcome.enrollmentCode clientMessage drawn =
    some (outcome.sharedKey, outcome.serverMessage)

/-- The client has proved, in time, that it has the key of an exchange. -/
def Pairing.Proved (lib : Libraries) (exchanges : List Exchange) (p : Pairing) : Prop :=
  ∃ x ∈ exchanges, x.enrollmentId = p.enrollmentId ∧
    p.takenAt - x.createdAt ≤ pakeEnrollmentTtl ∧ ∃ publicKey,
      parsePublicKeyBase64 lib.toLibraries p.client.publicKeyB64 = .ok publicKey ∧
      verifyClientProof lib x.outcome.sharedKey p.enrollmentId publicKey p.clientProofB64 = true

/-- Each code was consumed by one request, which made one exchange with it, and each exchange was
taken up once. -/
structure Runtime.Sound (lib : Libraries) (rt : Runtime) : Prop where
  codes : rt.shown = rt.enrollmentCode.toList ++ rt.consumed.map Prod.fst
  consumed : (rt.consumed.map Prod.snd).Nodup
  made : ∀ x ∈ rt.exchanges,
    (x.outcome.enrollmentCode, x.request) ∈ rt.consumed ∧ x.outcome.Made lib
  exchanges : (rt.exchanges.map Exchange.request).Nodup
  ids : (rt.exchanges.map Exchange.enrollmentId).Nodup
  pake : ∀ id e, rt.pakeEnrollments id = some e → id ∉ rt.taken.map Prod.fst ∧
    ∃ x ∈ rt.exchanges, x.enrollmentId = id ∧ x.outcome.sharedKey = e.sharedKey ∧
      x.createdAt = e.createdAt
  known : ∀ e ∈ rt.taken, e.1 ∈ rt.exchanges.map Exchange.enrollmentId
  taken : (rt.taken.map Prod.fst).Nodup
  proved : ∀ p ∈ rt.pairings, p.Proved lib rt.exchanges ∧ (p.enrollmentId, p.request) ∈ rt.taken
  pairings : (rt.pairings.map Pairing.enrollmentId).Nodup

/-- A code is told to no request that came over the relay, and lets in one client at most, which
has proved that it knows the key that was made with the code. -/
structure Secure (lib : Libraries) (w : World) : Prop where
  told : ∀ t header newCode code,
    w.calls t = some (.generate header newCode, .answered (.ok (.code code))) →
      isRelayRequest header = false ∧ code ∈ w.rt.shown
  sound : w.rt.Sound lib
  few : w.rt.pairings.length ≤ w.rt.consumed.length

/-- What the runtime has of a request. -/
def Holds (lib : Libraries) (rt : Runtime) (t : Nat) : Option (Request × Phase) → Prop
  | none | some (_, .received) => t ∉ rt.consumed.map Prod.snd ∧ t ∉ rt.taken.map Prod.snd
  | some (.generate header _, .admitted) => isRelayRequest header = false
  | some (.generate header _, .answered (.ok (.code code))) =>
    isRelayRequest header = false ∧ code ∈ rt.shown
  | some (_, .exchanged outcome) => t ∉ rt.consumed.map Prod.snd ∧ outcome.Made lib
  | some (_, .consumed outcome) => (outcome.enrollmentCode, t) ∈ rt.consumed ∧ outcome.Made lib ∧
    t ∉ rt.exchanges.map Exchange.request
  | some (_, .proved p) => p.Proved lib rt.exchanges ∧ (p.enrollmentId, t) ∈ rt.taken ∧
    p.request = t ∧ t ∉ rt.pairings.map Pairing.request
  | _ => True

/-- The lists grow by what the request has done. -/
structure Later (t : Nat) (rt rt' : Runtime) : Prop where
  shown : rt.shown ⊆ rt'.shown
  consumed : rt.consumed ⊆ rt'.consumed ∧ ∀ e ∈ rt'.consumed, e ∈ rt.consumed ∨ e.2 = t
  exchanges : rt.exchanges ⊆ rt'.exchanges ∧
    ∀ x ∈ rt'.exchanges, x ∈ rt.exchanges ∨ x.request = t
  taken : rt.taken ⊆ rt'.taken ∧ ∀ e ∈ rt'.taken, e ∈ rt.taken ∨ e.2 = t
  pairings : ∀ p ∈ rt'.pairings, p ∈ rt.pairings ∨ p.request = t

theorem Later.refl (t : Nat) (rt : Runtime) : Later t rt rt :=
  ⟨fun _ h => h, ⟨fun _ h => h, fun _ h => .inl h⟩, ⟨fun _ h => h, fun _ h => .inl h⟩,
    ⟨fun _ h => h, fun _ h => .inl h⟩, fun _ h => .inl h⟩

theorem subset_cons {f : α → Nat} (l : List α) (hx : f x = t) :
    l ⊆ x :: l ∧ ∀ y ∈ x :: l, y ∈ l ∨ f y = t :=
  ⟨fun _ h => List.mem_cons_of_mem _ h, fun _ h =>
    (List.mem_cons.mp h).elim (fun heq => .inr (heq ▸ hx)) .inl⟩

theorem Pairing.Proved.mono {exchanges exchanges' : List Exchange} (h : p.Proved lib exchanges)
    (hsub : exchanges ⊆ exchanges') : Proved lib exchanges' p := by
  obtain ⟨x, hx, hrest⟩ := h
  exact ⟨x, hsub hx, hrest⟩

theorem notMem_of_later {f : α → Nat} {l l' : List α} (h : ∀ x ∈ l', x ∈ l ∨ f x = t)
    (hne : t' ≠ t) (hnot : t' ∉ l.map f) : t' ∉ l'.map f := by
  intro hm
  obtain ⟨x, hx, rfl⟩ := List.mem_map.mp hm
  rcases h x hx with hx | hx
  · exact hnot (List.mem_map_of_mem hx)
  · exact hne hx

theorem Holds.frame (h : Holds lib rt t' call) (hl : Later t rt rt') (hne : t' ≠ t) :
    Holds lib rt' t' call := by
  unfold Holds at h ⊢
  split
  next => exact ⟨notMem_of_later hl.consumed.2 hne h.1, notMem_of_later hl.taken.2 hne h.2⟩
  next => exact ⟨notMem_of_later hl.consumed.2 hne h.1, notMem_of_later hl.taken.2 hne h.2⟩
  next => exact h
  next => exact ⟨h.1, hl.shown h.2⟩
  next => exact ⟨notMem_of_later hl.consumed.2 hne h.1, h.2⟩
  next => exact ⟨hl.consumed.1 h.1, h.2.1, notMem_of_later hl.exchanges.2 hne h.2.2⟩
  next =>
    exact ⟨h.1.mono hl.exchanges.1, hl.taken.1 h.2.1, h.2.2.1,
      notMem_of_later hl.pairings hne h.2.2.2⟩
  next => trivial

namespace Runtime.Sound
variable {lib : Libraries} {rt : Runtime} {x : Exchange} {p : Pairing} {id : Uuid}
  {e : PendingPakeEnrollment}

theorem consume (h : rt.Sound lib) (hcode : rt.enrollmentCode = some code)
    (ht : t ∉ rt.consumed.map Prod.snd) :
    Sound lib { rt with enrollmentCode := none, consumed := (code, t) :: rt.consumed } :=
  have hcodes := h.codes
  { h with
    codes := by rwa [hcode] at hcodes
    consumed := List.nodup_cons.mpr ⟨ht, h.consumed⟩
    made := fun x hx => ⟨List.mem_cons_of_mem _ (h.made x hx).1, (h.made x hx).2⟩ }

theorem store (h : rt.Sound lib)
    (hcode : (x.outcome.enrollmentCode, x.request) ∈ rt.consumed) (hmade : x.outcome.Made lib)
    (ht : x.request ∉ rt.exchanges.map Exchange.request)
    (hid : x.enrollmentId ∉ rt.exchanges.map Exchange.enrollmentId) :
    (rt.storePakeEnrollment x).Sound lib := by
  refine { h with
    made := List.forall_mem_cons.mpr ⟨⟨hcode, hmade⟩, h.made⟩
    exchanges := List.nodup_cons.mpr ⟨ht, h.exchanges⟩
    ids := List.nodup_cons.mpr ⟨hid, h.ids⟩
    pake := fun id e he => ?_
    known := fun e he => List.mem_cons_of_mem _ (h.known e he)
    proved := fun p hp =>
      ⟨(h.proved p hp).1.mono (List.subset_cons_self _ _), (h.proved p hp).2⟩ }
  by_cases heq : id = x.enrollmentId
  · subst heq
    simp only [storePakeEnrollment, Function.update_self] at he
    cases he
    refine ⟨fun hm => ?_, x, List.mem_cons_self, rfl, rfl, rfl⟩
    obtain ⟨e, he, hfst⟩ := List.mem_map.mp hm
    exact hid (hfst ▸ h.known e he)
  · simp only [storePakeEnrollment, Function.update_of_ne heq] at he
    obtain ⟨htaken, y, hy, hrest⟩ := h.pake id e he
    exact ⟨htaken, y, List.mem_cons_of_mem _ hy, hrest⟩

theorem take (h : rt.Sound lib) (hpake : rt.pakeEnrollments id = some e) (t : Nat) :
    Sound lib { rt with
      pakeEnrollments := Function.update rt.pakeEnrollments id none
      taken := (id, t) :: rt.taken } := by
  obtain ⟨hnot, x, hx, hid, _⟩ := h.pake id e hpake
  refine { h with
    pake := fun id' e' he' => ?_
    known := List.forall_mem_cons.mpr ⟨hid ▸ List.mem_map_of_mem hx, h.known⟩
    taken := List.nodup_cons.mpr ⟨hnot, h.taken⟩
    proved := fun p hp => ⟨(h.proved p hp).1, List.mem_cons_of_mem _ (h.proved p hp).2⟩ }
  by_cases heq : id' = id
  · simp only [heq, Function.update_self] at he'
    cases he'
  · simp only [Function.update_of_ne heq] at he'
    obtain ⟨htaken, hrest⟩ := h.pake id' e' he'
    exact ⟨List.not_mem_cons_of_ne_of_not_mem heq htaken, hrest⟩

theorem pair (h : rt.Sound lib) (hproved : p.Proved lib rt.exchanges)
    (htaken : (p.enrollmentId, p.request) ∈ rt.taken)
    (hnew : p.request ∉ rt.pairings.map Pairing.request) :
    Sound lib { rt with pairings := p :: rt.pairings } := by
  refine { h with
    proved := List.forall_mem_cons.mpr ⟨⟨hproved, htaken⟩, h.proved⟩
    pairings := List.nodup_cons.mpr ⟨fun hm => ?_, h.pairings⟩ }
  obtain ⟨p', hp', hid⟩ := List.mem_map.mp hm
  have hsame := List.inj_on_of_nodup_map h.taken (h.proved p' hp').2 htaken hid
  exact hnew ((Prod.mk.inj hsame).2 ▸ List.mem_map_of_mem hp')

theorem few (h : rt.Sound lib) : rt.pairings.length ≤ rt.consumed.length := by
  have hpairings : rt.pairings.map Pairing.enrollmentId ⊆
      rt.exchanges.map Exchange.enrollmentId := by
    intro id hid
    obtain ⟨p, hp, rfl⟩ := List.mem_map.mp hid
    exact h.known _ (h.proved p hp).2
  have hexchanges : rt.exchanges.map Exchange.request ⊆ rt.consumed.map Prod.snd := by
    intro t ht
    obtain ⟨x, hx, rfl⟩ := List.mem_map.mp ht
    exact List.mem_map_of_mem (f := Prod.snd) (h.made x hx).1
  have hlt := h.pairings.length_le_of_subset hpairings
  have hle := h.exchanges.length_le_of_subset hexchanges
  simp only [List.length_map] at hlt hle
  exact Nat.le_trans hlt hle

end Runtime.Sound

/-- What the next step of a request keeps. -/
structure Kept (lib : Libraries) (t : Nat) (rt : Runtime) (request : Request)
    (served : Phase × Runtime) : Prop where
  sound : served.2.Sound lib
  holds : Holds lib served.2 t (some (request, served.1))
  later : Later t rt served.2

theorem startSpake2Enrollment_made
    (h : startSpake2Enrollment lib rawCode clientMessageB64 drawn = .ok outcome) :
    outcome.Made lib := by
  unfold startSpake2Enrollment at h
  cases hcode : normalizeEnrollmentCode rawCode with
  | error e => rw [hcode] at h; cases h
  | ok code =>
    rw [hcode] at h
    change (match lib.decode clientMessageB64 with | none => _ | some _ => _) = _ at h
    split at h
    next => cases h
    next clientMessage _ =>
      split at h
      next => cases h
      next hspake =>
        cases h
        exact ⟨clientMessage, drawn, hspake⟩

theorem serve_keeps (hs : rt.Sound lib) (hh : Holds lib rt t (some (request, phase))) (id : Uuid)
    (answer : Except ApiError Unit) :
    Kept lib t rt request (serve lib t id answer rt request phase) := by
  unfold serve
  split
  next =>
    split
    next => exact ⟨hs, trivial, .refl t rt⟩
    next hrelay =>
      split
      next => exact ⟨hs, trivial, .refl t rt⟩
      next => exact ⟨hs, Bool.eq_false_iff.mpr hrelay, .refl t rt⟩
  next header newCode =>
    cases hcode : rt.enrollmentCode with
    | some code =>
      simp only [Runtime.getOrSetEnrollmentCode, hcode]
      refine ⟨hs, ⟨hh, ?_⟩, .refl t rt⟩
      rw [hs.codes, hcode]
      exact List.mem_cons_self
    | none =>
      simp only [Runtime.getOrSetEnrollmentCode, hcode]
      have hcodes := hs.codes
      rw [hcode] at hcodes
      exact ⟨{ hs with codes := congrArg (newCode :: ·) hcodes }, ⟨hh, List.mem_cons_self⟩,
        { Later.refl t rt with shown := List.subset_cons_self _ _ }⟩
  next rawCode clientMessageB64 drawn =>
    split
    next => exact ⟨hs, trivial, .refl t rt⟩
    next outcome houtcome =>
      refine ⟨hs, ⟨hh.1, ?_⟩, .refl t rt⟩
      cases answer with
      | error e => cases houtcome
      | ok =>
        simp only [Except.bind] at houtcome
        exact startSpake2Enrollment_made houtcome
  next outcome =>
    unfold Runtime.consumeEnrollmentCode
    split
    next => exact ⟨hs, trivial, .refl t rt⟩
    next hconsume =>
      split at hconsume
      next hcode =>
        cases hconsume
        refine ⟨hs.consume hcode hh.1, ⟨List.mem_cons_self, hh.2, fun hm => ?_⟩,
          { Later.refl t rt with consumed := subset_cons _ rfl }⟩
        obtain ⟨x, hx, hrequest⟩ := List.mem_map.mp hm
        exact hh.1 (List.mem_map.mpr ⟨_, (hs.made x hx).1, hrequest⟩)
      next => cases hconsume
  next outcome =>
    split
    next => exact ⟨hs, hh, .refl t rt⟩
    next hid =>
      exact ⟨hs.store hh.1 hh.2.1 hh.2.2 hid, trivial,
        { Later.refl t rt with exchanges := subset_cons _ rfl }⟩
  next enrollmentId client clientProofB64 =>
    unfold Runtime.takePakeEnrollment
    cases hpake : rt.pakeEnrollments enrollmentId with
    | none => exact ⟨hs, trivial, .refl t rt⟩
    | some e =>
      have hs' := hs.take hpake t
      have hl : Later t rt { rt with
          pakeEnrollments := Function.update rt.pakeEnrollments enrollmentId none
          taken := (enrollmentId, t) :: rt.taken } :=
        { Later.refl t rt with taken := subset_cons rt.taken rfl }
      obtain ⟨_, x, hx, hid, hkey, hat⟩ := hs.pake _ e hpake
      by_cases hlate : rt.now - e.createdAt > pakeEnrollmentTtl
      · simp only [hlate, if_true]
        exact ⟨hs', trivial, hl⟩
      · simp only [hlate, if_false]
        split
        next => exact ⟨hs', trivial, hl⟩
        next publicKey hparse =>
          split
          next hproof =>
            refine ⟨hs', ⟨⟨x, hx, hid, ?_, publicKey, hparse, ?_⟩, List.mem_cons_self, rfl, ?_⟩, hl⟩
            · exact hat ▸ Nat.le_of_not_lt hlate
            · rw [hkey]
              exact hproof
            · intro hm
              obtain ⟨p, hp, hrequest⟩ := List.mem_map.mp hm
              exact hh.2 (List.mem_map.mpr ⟨_, (hs.proved p hp).2, hrequest⟩)
          next => exact ⟨hs', trivial, hl⟩
  next pairing =>
    obtain ⟨hproved, htaken, hrequest, hnew⟩ := hh
    split
    next => exact ⟨hs, trivial, .refl t rt⟩
    next =>
      subst hrequest
      exact ⟨hs.pair hproved htaken hnew, trivial,
        { Later.refl pairing.request rt with pairings := (subset_cons _ rfl).2 }⟩
  next => exact ⟨hs, hh, .refl t rt⟩

namespace World
variable {lib : Libraries} {w : World} {rt : Runtime}

/-- What holds after every step. -/
structure Inv (lib : Libraries) (w : World) : Prop where
  sound : w.rt.Sound lib
  calls : ∀ t, Holds lib w.rt t (w.calls t)

theorem Inv.set (h : w.Inv lib) (hk : Kept lib t w.rt request (phase, rt)) :
    (w.set t rt request phase).Inv lib where
  sound := hk.sound
  calls t' := by
    by_cases heq : t' = t
    · subst heq
      simp only [World.set, Function.update_self]
      exact hk.holds
    · simp only [World.set, Function.update_of_ne heq]
      exact (h.calls t').frame hk.later heq

theorem Inv.step (h : w.Inv lib) (ev : Event) : (w.step lib ev).Inv lib := by
  cases ev with
  | pass time => exact ⟨{ h.sound with }, fun t => h.calls t⟩
  | request t request =>
    cases hw : w.calls t with
    | none =>
      simp only [World.step, hw, Option.isNone_none, if_true]
      refine h.set ⟨h.sound, ?_, .refl t w.rt⟩
      have hfresh := h.calls t
      rw [hw] at hfresh
      exact hfresh
    | some call =>
      simpa only [World.step, hw, Option.isNone_some, Bool.false_eq_true, if_false] using h
  | go t id answer =>
    have hcall := h.calls t
    cases hw : w.calls t with
    | none => simpa only [World.step, hw] using h
    | some call =>
      simp only [World.step, hw]
      rw [hw] at hcall
      exact h.set (serve_keeps h.sound hcall id answer)
  | drop t =>
    cases hw : w.calls t with
    | none => simpa only [World.step, hw] using h
    | some call =>
      simp only [World.step, hw]
      exact h.set ⟨h.sound, trivial, .refl t w.rt⟩

theorem inv_new : World.new.Inv lib where
  sound := by
    constructor <;> simp [World.new]
  calls t := ⟨List.not_mem_nil, List.not_mem_nil⟩

theorem Inv.run (h : w.Inv lib) (events : List Event) : (w.run lib events).Inv lib := by
  induction events generalizing w with
  | nil => exact h
  | cons ev events ih => exact ih (h.step ev)

theorem Inv.secure (h : w.Inv lib) : Secure lib w where
  told t header newCode code hw := by
    have hcall := h.calls t
    rw [hw] at hcall
    exact hcall
  sound := h.sound
  few := h.sound.few

theorem run_secure (events : List Event) : Secure lib (new.run lib events) :=
  (inv_new.run events).secure

end World

end Cdesktop.RelayPairing
