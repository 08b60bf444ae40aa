import Cdesktop.NonceWindow
import Cdesktop.RelaySigning
import Cdesktop.Run
import Mathlib.Algebra.Ring.Int.Defs

namespace Cdesktop.RelaySigning
open NonceWindow
set_option autoImplicit true

/-- Instants of the monotonic clock, and durations, are in nanoseconds. -/
def secs (n : Nat) : Nat := n * 1000000000

def maxTimestampDriftSecs : Nat := 30

def signingSessionTtl : Nat := secs (60 * 60)

def signingSessionIdleTtl : Nat := secs (15 * 60)

def nonceTtl : Nat := secs (2 * 60)

def i64Min : Int := -2 ^ 63

def i64Max : Int := 2 ^ 63 - 1

def saturatingSub (a b : Int) : Int := max i64Min (min i64Max (a - b))

/-- The seconds of the wall clock, which was at `epoch` when the monotonic clock was at zero. -/
def unixSecs (epoch now : Nat) : Nat := (epoch + now) / secs 1

inductive RelaySignatureValidationError where
  | timestampOutOfDrift
  | missingSigningSession
  | invalidNonce
  | replayNonce
  | invalidSignature

def withinDrift (epoch now : Nat) (timestamp : Int) : Bool :=
  (unixSecs epoch now : Int) ≤ i64Max ∧
    (saturatingSub (unixSecs epoch now) timestamp).natAbs ≤ maxTimestampDriftSecs

def validateTimestamp (epoch now : Nat) (timestamp : Int) :
    Except RelaySignatureValidationError Unit :=
  if withinDrift epoch now timestamp then .ok () else .error .timestampOutOfDrift

def parseSignatureB64 (lib : Libraries) (signatureB64 : String) :
    Except RelaySignatureValidationError Signature :=
  match (lib.decode signatureB64).bind lib.signatureFromSlice with
  | none => .error .invalidSignature
  | some signature => .ok signature

structure RelaySigningSession where
  peerPublicKey : VerifyingKey
  createdAt : Nat
  lastUsedAt : Nat
  seenNonces : Seen Uuid

def RelaySigningSession.new (now : Nat) (peerPublicKey : VerifyingKey) : RelaySigningSession :=
  { peerPublicKey
    createdAt := now
    lastUsedAt := now
    seenNonces := fun _ => none }

def RelaySigningSession.valid (now : Nat) (session : RelaySigningSession) : Bool :=
  now - session.createdAt ≤ signingSessionTtl ∧ now - session.lastUsedAt ≤ signingSessionIdleTtl

structure SignedRequest where
  sig : RequestSignature
  method : String
  pathAndQuery : String
  body : List UInt8

def SignedRequest.message (lib : Libraries) (request : SignedRequest) : List UInt8 :=
  utf8 (buildRequestSigningMessage lib request.sig request.method request.pathAndQuery request.body)

/-- `verify_request` between its steps: the lock of the sessions is held from the second one to the
answer. -/
inductive Phase where
  | received
  | checked (signature : Signature) (at_ : Nat)
  | answered (answer : Except RelaySignatureValidationError Unit)

structure Delivery where
  request : SignedRequest
  phase : Phase

structure Accepted (κ : Type) where
  nonce : κ
  timestamp : Int
  checkedAt : Nat
deriving DecidableEq

structure World where
  now : Nat
  sessions : Uuid → Option RelaySigningSession
  deliveries : Nat → Option Delivery
  accepted : Uuid → List (Accepted Uuid)

def World.new : World :=
  { now := 0
    sessions := fun _ => none
    deliveries := fun _ => none
    accepted := fun _ => [] }

inductive Event where
  | pass (duration : Nat)
  | register (signingSessionId : Uuid) (peerPublicKey : VerifyingKey)
  | deliver (t : Nat) (request : SignedRequest)
  | check (t : Nat)
  /-- The lock is there. The durations are up to the look at the nonces, and from it to the end. -/
  | locked (t : Nat) (before after : Nat)

def World.set (w : World) (t : Nat) (request : SignedRequest) (phase : Phase) : World :=
  { w with deliveries := Function.update w.deliveries t (some ⟨request, phase⟩) }

def World.answer (w : World) (t : Nat) (request : SignedRequest)
    (answer : Except RelaySignatureValidationError Unit) : World :=
  w.set t request (.answered answer)

def World.setSession (w : World) (id : Uuid) (session : RelaySigningSession) : World :=
  { w with sessions := Function.update w.sessions id (some session) }

def World.retainSessions (w : World) : World :=
  { w with sessions := fun id => (w.sessions id).filter fun session => session.valid w.now }

def World.register (w : World) (id : Uuid) (peerPublicKey : VerifyingKey) : World :=
  { w.setSession id (RelaySigningSession.new w.now peerPublicKey) with
    accepted := Function.update w.accepted id [] }

def World.check (lib : Libraries) (epoch : Nat) (w : World) (t : Nat) (request : SignedRequest) :
    World :=
  match validateTimestamp epoch w.now request.sig.timestamp with
  | .error e => w.answer t request (.error e)
  | .ok () =>
    match parseSignatureB64 lib request.sig.signatureB64 with
    | .error e => w.answer t request (.error e)
    | .ok signature => w.set t request (.checked signature w.now)

def World.locked (lib : Libraries) (w : World) (t : Nat) (request : SignedRequest)
    (signature : Signature) (checkedAt before after : Nat) : World :=
  let id := request.sig.signingSessionId
  let w := w.retainSessions
  match w.sessions id with
  | none => w.answer t request (.error .missingSigningSession)
  | some session =>
    let now := w.now + before
    let session := { session with seenNonces := retain nonceTtl now session.seenNonces }
    let w := { w with now }
    if (session.seenNonces request.sig.nonce).isSome then
      (w.setSession id session).answer t request (.error .replayNonce)
    else if !lib.verify session.peerPublicKey (request.message lib) signature then
      (w.setSession id session).answer t request (.error .invalidSignature)
    else
      let now := now + after
      let session :=
        { session with
          seenNonces := insert request.sig.nonce now session.seenNonces
          lastUsedAt := now }
      let accepted := ⟨request.sig.nonce, request.sig.timestamp, checkedAt⟩
      { (w.setSession id session).answer t request (.ok ()) with
        now
        accepted := Function.update w.accepted id (accepted :: w.accepted id) }

def World.exec (lib : Libraries) (epoch : Nat) (w : World) : Event → World
  | .pass duration => { w with now := w.now + duration }
  | .register id peerPublicKey => w.register id peerPublicKey
  | .deliver t request => if (w.deliveries t).isNone then w.set t request .received else w
  | .check t =>
    match w.deliveries t with
    | some ⟨request, .received⟩ => w.check lib epoch t request
    | _ => w
  | .locked t before after =>
    match w.deliveries t with
    | some ⟨request, .checked signature checkedAt⟩ =>
      w.locked lib t request signature checkedAt before after
    | _ => w

def lowest (epoch : Nat) (timestamp : Int) : Int := (timestamp - 30) * 1000000000 - epoch

theorem withinDrift_bounds (h : withinDrift epoch now timestamp = true) :
    lowest epoch timestamp ≤ now ∧ now < lowest epoch timestamp + secs 61 := by
  obtain ⟨-, hdrift⟩ := of_decide_eq_true h
  simp only [saturatingSub, unixSecs, secs, i64Min, i64Max, maxTimestampDriftSecs] at hdrift
  simp only [lowest, secs]
  omega

/-- How long after its check a request may come to the lock. -/
def slack : Nat := secs 59

/-- A request that is looked at soon after its check is looked at before its nonce is forgotten. -/
theorem not_past (h : withinDrift epoch checkedAt timestamp = true) (hnow : now ≤ checkedAt + slack) :
    ¬ lowest epoch timestamp + nonceTtl < now := by
  have hlt := (withinDrift_bounds h).2
  simp only [secs] at hlt
  simp only [slack, secs] at hnow
  simp only [nonceTtl, secs]
  omega

/-- The lock is there soon after the check, and what the peer signs with a nonce that was accepted
has the timestamp that was accepted with it. -/
def InTime (lib : Libraries) (w : World) (before : Nat) : Delivery → Prop
  | ⟨request, .checked signature checkedAt⟩ =>
    w.now + before ≤ checkedAt + slack ∧
      ∀ session ∈ w.sessions request.sig.signingSessionId,
        lib.verify session.peerPublicKey (request.message lib) signature = true →
        ∀ a ∈ w.accepted request.sig.signingSessionId, a.nonce = request.sig.nonce →
          a.timestamp = request.sig.timestamp
  | ⟨_, .received⟩ | ⟨_, .answered _⟩ => True

instance (lib : Libraries) (w : World) (before : Nat) (delivery : Delivery) :
    Decidable (InTime lib w before delivery) :=
  match delivery with
  | ⟨_, .checked _ _⟩ => inferInstanceAs (Decidable (_ ∧ _))
  | ⟨_, .received⟩ | ⟨_, .answered _⟩ => inferInstanceAs (Decidable True)

def Timely (lib : Libraries) (w : World) : Event → Prop
  | .locked t before _ => ∀ delivery ∈ w.deliveries t, InTime lib w before delivery
  | .pass _ | .register _ _ | .deliver _ _ | .check _ => True

instance (lib : Libraries) (w : World) (event : Event) : Decidable (Timely lib w event) :=
  match event with
  | .locked _ _ _ => inferInstanceAs (Decidable (∀ delivery ∈ w.deliveries _, _))
  | .pass _ | .register _ _ | .deliver _ _ | .check _ => inferInstanceAs (Decidable True)

/-- The nonces of a session are those of the requests that were accepted, as long as their time has
not passed. -/
structure Guarded (epoch now : Nat) (seen : Seen Uuid) (accepted : List (Accepted Uuid)) :
    Prop where
  consumed : ∀ nonce, seen nonce ≠ none → nonce ∈ accepted.map (·.nonce)
  covered : ∀ a ∈ accepted, Covers nonceTtl seen now a.nonce (lowest epoch a.timestamp)

structure Inv (epoch : Nat) (w : World) : Prop where
  checked : ∀ t request signature checkedAt,
    w.deliveries t = some ⟨request, .checked signature checkedAt⟩ →
    checkedAt ≤ w.now ∧ withinDrift epoch checkedAt request.sig.timestamp = true
  once : ∀ id, ((w.accepted id).map (·.nonce)).Nodup
  drift : ∀ id, ∀ a ∈ w.accepted id, withinDrift epoch a.checkedAt a.timestamp = true
  guarded : ∀ id session, w.sessions id = some session →
    Guarded epoch w.now session.seenNonces (w.accepted id)

section
variable (h : Guarded epoch now seen accepted)
include h

theorem Guarded.later (hnow : now ≤ now') :
    Guarded epoch now' seen accepted :=
  ⟨h.consumed, fun a ha => (h.covered a ha).later hnow⟩

theorem Guarded.retain (hnow : now ≤ now') :
    Guarded epoch now' (retain nonceTtl now' seen) accepted := by
  constructor
  · intro nonce hseen
    apply h.consumed nonce
    intro hnone
    apply hseen
    rw [NonceWindow.retain, hnone]
    rfl
  · intro a ha
    exact (h.covered a ha).retain (Nat.le_refl _) hnow

/-- A request that comes in time, with a nonce that is not remembered, is the first one with it. -/
theorem Guarded.fresh (hnone : seen nonce = none)
    (hdrift : withinDrift epoch checkedAt timestamp = true) (hnow : now ≤ checkedAt + slack)
    (hsame : ∀ a ∈ accepted, a.nonce = nonce → a.timestamp = timestamp) :
    nonce ∉ accepted.map (·.nonce) := by
  intro hmem
  obtain ⟨a, ha, heq⟩ := List.mem_map.mp hmem
  have hpast := (h.covered a ha).past (by rw [heq]; exact hnone)
  rw [hsame a ha heq] at hpast
  exact not_past hdrift hnow hpast

theorem Guarded.accept (hnow : now ≤ now')
    (hdrift : withinDrift epoch checkedAt timestamp = true) (hle : checkedAt ≤ now')
    (hnone : seen nonce = none) :
    Guarded epoch now' (insert nonce now' seen) (⟨nonce, timestamp, checkedAt⟩ :: accepted) := by
  constructor
  · intro nonce' hseen
    by_cases heq : nonce' = nonce
    · subst heq
      exact List.mem_cons_self
    · rw [NonceWindow.insert, Function.update_of_ne heq] at hseen
      exact List.mem_cons_of_mem _ (h.consumed nonce' hseen)
  · intro a ha
    rcases List.mem_cons.mp ha with heq | hold
    · subst heq
      have hlow := (withinDrift_bounds hdrift).1
      apply Covers.of_insert seen
      dsimp only
      omega
    · exact (h.covered a hold).insert hnone hnow

end

theorem Inv.new (epoch : Nat) : Inv epoch World.new := by
  constructor
  · intro t request signature checkedAt hdelivery
    cases hdelivery
  · intro id
    exact List.nodup_nil
  · intro id a ha
    cases ha
  · intro id session hsession
    cases hsession

variable {w : World}

theorem World.retainSessions_eq_some {id : Uuid} (h : w.retainSessions.sessions id = some session) :
    w.sessions id = some session := (Option.filter_eq_some_iff.mp h).1

section
variable (h : Inv epoch w)
include h

theorem Inv.step {w' : World} (hnow : w.now ≤ w'.now)
    (hdeliveries : w'.deliveries = Function.update w.deliveries t (some ⟨request, phase⟩))
    (hphase : ∀ signature checkedAt, phase = .checked signature checkedAt →
      checkedAt ≤ w'.now ∧ withinDrift epoch checkedAt request.sig.timestamp = true)
    (honce : ∀ id, ((w'.accepted id).map (·.nonce)).Nodup)
    (hdrift : ∀ id, ∀ a ∈ w'.accepted id, withinDrift epoch a.checkedAt a.timestamp = true)
    (hguarded : ∀ id session, w'.sessions id = some session →
      Guarded epoch w'.now session.seenNonces (w'.accepted id)) : Inv epoch w' := by
  constructor
  · intro t' request' signature checkedAt hdelivery
    rw [hdeliveries] at hdelivery
    by_cases ht : t' = t
    · subst ht
      rw [Function.update_self] at hdelivery
      cases hdelivery
      exact hphase signature checkedAt rfl
    · rw [Function.update_of_ne ht] at hdelivery
      obtain ⟨hle, hin⟩ := h.checked t' request' signature checkedAt hdelivery
      exact ⟨Nat.le_trans hle hnow, hin⟩
  · exact honce
  · exact hdrift
  · exact hguarded

theorem Inv.set {phase : Phase} (hphase : ∀ signature checkedAt, phase = .checked signature checkedAt →
      checkedAt ≤ w.now ∧ withinDrift epoch checkedAt request.sig.timestamp = true) :
    Inv epoch (w.set t request phase) :=
  h.step (Nat.le_refl _) rfl hphase h.once h.drift h.guarded

theorem Inv.answer : Inv epoch (w.answer t request result) := by
  apply h.set
  intro signature checkedAt heq
  cases heq

theorem Inv.pass (duration : Nat) :
    Inv epoch { w with now := w.now + duration } := by
  have hle : w.now ≤ w.now + duration := Nat.le_add_right ..
  constructor
  · intro t request signature checkedAt hdelivery
    obtain ⟨hle', hin⟩ := h.checked t request signature checkedAt hdelivery
    exact ⟨Nat.le_trans hle' hle, hin⟩
  · exact h.once
  · exact h.drift
  · intro id session hsession
    exact (h.guarded id session hsession).later hle

theorem Inv.register (id : Uuid) (key : VerifyingKey) :
    Inv epoch (w.register id key) := by
  constructor
  · exact h.checked
  · intro id'
    by_cases hid : id' = id
    · subst hid
      rw [World.register]
      dsimp only
      rw [Function.update_self]
      exact List.nodup_nil
    · rw [World.register]
      dsimp only
      rw [Function.update_of_ne hid]
      exact h.once id'
  · intro id' a ha
    rw [World.register] at ha
    dsimp only at ha
    by_cases hid : id' = id
    · subst hid
      rw [Function.update_self] at ha
      cases ha
    · rw [Function.update_of_ne hid] at ha
      exact h.drift id' a ha
  · intro id' session hsession
    rw [World.register, World.setSession] at hsession ⊢
    dsimp only at hsession ⊢
    by_cases hid : id' = id
    · subst hid
      rw [Function.update_self] at hsession ⊢
      cases hsession
      constructor
      · intro nonce hseen
        exact (hseen rfl).elim
      · intro a ha
        cases ha
    · rw [Function.update_of_ne hid] at hsession ⊢
      exact h.guarded id' session hsession

theorem Inv.check : Inv epoch (w.check lib epoch t request) := by
  rw [World.check]
  split
  · exact h.answer
  · rename_i hvalid
    split
    · exact h.answer
    · apply h.set
      intro signature checkedAt heq
      cases heq
      refine ⟨Nat.le_refl _, ?_⟩
      rw [validateTimestamp] at hvalid
      split at hvalid
      · assumption
      · cases hvalid

theorem Inv.refused {id : Uuid} (hsession : w.sessions id = some session) (before : Nat) :
    Inv epoch (({ w.retainSessions with now := w.now + before }.setSession id { session with
      seenNonces := retain nonceTtl (w.now + before) session.seenNonces }).answer t request
        result) := by
  have hle : w.now ≤ w.now + before := Nat.le_add_right ..
  apply h.step (t := t)
  · exact hle
  · rfl
  · intro signature checkedAt heq
    cases heq
  · exact h.once
  · exact h.drift
  · intro id' session' hsession'
    by_cases hid : id' = id
    · subst hid
      simp only [World.answer, World.set, World.setSession, Function.update_self] at hsession'
      cases hsession'
      exact (h.guarded id' session hsession).retain hle
    · simp only [World.answer, World.set, World.setSession, Function.update_of_ne hid] at hsession'
      exact (h.guarded id' session' (World.retainSessions_eq_some hsession')).later hle

theorem Inv.locked (hdelivery : w.deliveries t = some ⟨request, .checked signature checkedAt⟩)
    (htimely : Timely lib w (.locked t before after)) :
    Inv epoch (w.locked lib t request signature checkedAt before after) := by
  obtain ⟨hchecked, hin⟩ := h.checked t request signature checkedAt hdelivery
  obtain ⟨hsoon, hsame⟩ := htimely _ hdelivery
  have hle : w.now ≤ w.now + before := Nat.le_add_right ..
  have hle' : w.now ≤ w.now + before + after := Nat.le_trans hle (Nat.le_add_right ..)
  rw [World.locked]
  dsimp only
  split
  · apply h.step (t := t)
    · exact Nat.le_refl _
    · rfl
    · intro signature' checkedAt' heq
      cases heq
    · exact h.once
    · exact h.drift
    · intro id session hsession
      exact h.guarded id session (World.retainSessions_eq_some hsession)
  · rename_i session hretained
    have hsession := World.retainSessions_eq_some hretained
    have hguarded := (h.guarded _ session hsession).retain hle
    split
    · exact h.refused hsession before
    · rename_i hunseen
      split
      · exact h.refused hsession before
      · rename_i hverify
        have hnone : retain nonceTtl (w.now + before) session.seenNonces request.sig.nonce = none :=
          Option.not_isSome_iff_eq_none.mp hunseen
        have hverify' : lib.verify session.peerPublicKey (request.message lib) signature = true := by
          simpa using hverify
        have hfresh := hguarded.fresh hnone hin hsoon (hsame session hsession hverify')
        apply h.step (t := t)
        · exact hle'
        · rfl
        · intro signature' checkedAt' heq
          cases heq
        · intro id
          by_cases hid : id = request.sig.signingSessionId
          · subst hid
            dsimp only
            rw [Function.update_self]
            exact List.nodup_cons.mpr ⟨hfresh, h.once _⟩
          · dsimp only
            rw [Function.update_of_ne hid]
            exact h.once id
        · intro id a ha
          by_cases hid : id = request.sig.signingSessionId
          · subst hid
            dsimp only at ha
            rw [Function.update_self] at ha
            rcases List.mem_cons.mp ha with heq | hold
            · subst heq
              exact hin
            · exact h.drift _ a hold
          · dsimp only at ha
            rw [Function.update_of_ne hid] at ha
            exact h.drift id a ha
        · intro id session' hsession'
          by_cases hid : id = request.sig.signingSessionId
          · subst hid
            simp only [World.answer, World.set, World.setSession, Function.update_self]
              at hsession' ⊢
            cases hsession'
            exact hguarded.accept (Nat.le_add_right ..) hin (Nat.le_trans hchecked hle') hnone
          · simp only [World.answer, World.set, World.setSession, Function.update_of_ne hid]
              at hsession' ⊢
            exact (h.guarded id session' (World.retainSessions_eq_some hsession')).later hle'

theorem Inv.exec (htimely : Timely lib w event) :
    Inv epoch (w.exec lib epoch event) := by
  cases event with
  | pass duration => exact h.pass duration
  | register id key => exact h.register id key
  | deliver t request =>
    rw [World.exec]
    split
    · apply h.set
      intro signature checkedAt heq
      cases heq
    · exact h
  | check t =>
    rw [World.exec]
    split
    · exact h.check
    · exact h
  | locked t before after =>
    rw [World.exec]
    split
    · rename_i request signature checkedAt hdelivery
      exact h.locked hdelivery htimely
    · exact h

end

structure Sound (epoch : Nat) (w : World) : Prop where
  once : ∀ id, ((w.accepted id).map (·.nonce)).Nodup
  drift : ∀ id, ∀ a ∈ w.accepted id, withinDrift epoch a.checkedAt a.timestamp = true
  /-- Only a request that was accepted has its nonce consumed. -/
  consumed : ∀ id session nonce, w.sessions id = some session → session.seenNonces nonce ≠ none →
    nonce ∈ (w.accepted id).map (·.nonce)

theorem run_sound (h : Run.Each (World.exec lib epoch) (Timely lib) World.new events) :
    Sound epoch (Run.run (World.exec lib epoch) World.new events) := by
  have hinv : Inv epoch (Run.run (World.exec lib epoch) World.new events) :=
    Run.Each.preserves (fun _ _ h htimely => h.exec htimely) (Inv.new epoch) h
  constructor
  · exact hinv.once
  · exact hinv.drift
  · intro id session nonce hsession
    exact (hinv.guarded id session hsession).consumed nonce

end Cdesktop.RelaySigning
