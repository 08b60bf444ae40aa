import Cdesktop.RelaySessions
import Cdesktop.TrustedKeys

namespace Cdesktop.RelayRefresh
open NonceWindow RelaySigning
open TrustedKeys (isWhiteSpace)
set_option autoImplicit true

inductive ApiError where
  | unauthorized
  /-- What the rate limit and the registry of the clients answer. -/
  | refused (message : String)
deriving DecidableEq

structure RefreshRequest where
  clientId : Uuid
  timestamp : Int
  nonce : String
  signatureB64 : String
deriving DecidableEq

def refreshNonceTtl : Nat := secs (2 * 60)

def trim (s : String) : String :=
  String.ofList ((s.toList.dropWhile isWhiteSpace).reverse.dropWhile isWhiteSpace).reverse

def RefreshRequest.message (request : RefreshRequest) : List UInt8 :=
  utf8 (buildRefreshMessage request.timestamp request.nonce request.clientId)

def verifyRefreshSignature (lib : Libraries) (publicKey : VerifyingKey) (request : RefreshRequest) :
    Bool :=
  match (lib.decode request.signatureB64).bind lib.signatureFromSlice with
  | none => false
  | some signature => lib.verify publicKey request.message signature

/-- `refresh_signing_session` between its steps. From the lock of the nonces on it waits for nothing
before the signature is verified. -/
inductive Phase where
  | received
  | admitted (publicKey : VerifyingKey)
  | validated (publicKey : VerifyingKey) (checkedAt : Nat)
  | claiming (publicKey : VerifyingKey) (checkedAt now : Nat)
  | verified (publicKey : VerifyingKey)
  | answered (answer : Except ApiError Uuid)
deriving DecidableEq

structure Call where
  request : RefreshRequest
  phase : Phase
deriving DecidableEq

structure World where
  now : Nat
  refreshNonces : Seen String
  calls : Nat → Option Call
  accepted : List (Accepted String)
  created : List (Uuid × VerifyingKey)

def World.new : World :=
  { now := 0
    refreshNonces := fun _ => none
    calls := fun _ => none
    accepted := []
    created := [] }

inductive Event where
  | pass (duration : Nat)
  | refresh (t : Nat) (request : RefreshRequest)
  /-- The rate limit and the registry answer, with the key of the client where it has one. -/
  | lookUp (t : Nat) (answer : Except ApiError VerifyingKey)
  | validate (t : Nat)
  | readClock (t : Nat)
  | claim (t : Nat)
  | create (t : Nat) (signingSessionId : Uuid)

def World.set (w : World) (t : Nat) (request : RefreshRequest) (phase : Phase) : World :=
  { w with calls := Function.update w.calls t (some ⟨request, phase⟩) }

def World.refuse (w : World) (t : Nat) (request : RefreshRequest) (e : ApiError) : World :=
  w.set t request (.answered (.error e))

/-- `claim_refresh_nonce` up to the lock. -/
def World.readClock (w : World) (t : Nat) (request : RefreshRequest) (publicKey : VerifyingKey)
    (checkedAt : Nat) : World :=
  let normalized := trim request.nonce
  if normalized.isEmpty || (utf8 normalized).length > 128 then w.refuse t request .unauthorized
  else w.set t request (.claiming publicKey checkedAt w.now)

/-- The rest of `claim_refresh_nonce`, and the signature. -/
def World.claim (lib : Libraries) (w : World) (t : Nat) (request : RefreshRequest)
    (publicKey : VerifyingKey) (checkedAt now : Nat) : World :=
  let normalized := trim request.nonce
  let seen := retain refreshNonceTtl now w.refreshNonces
  if (seen normalized).isSome then
    { w.refuse t request .unauthorized with refreshNonces := seen }
  else
    let w := { w with refreshNonces := insert normalized now seen }
    if !verifyRefreshSignature lib publicKey request then w.refuse t request .unauthorized
    else
      { w.set t request (.verified publicKey) with
        accepted := ⟨request.nonce, request.timestamp, checkedAt⟩ :: w.accepted }

def World.exec (lib : Libraries) (epoch : Nat) (w : World) : Event → World
  | .pass duration => { w with now := w.now + duration }
  | .refresh t request => if (w.calls t).isNone then w.set t request .received else w
  | .lookUp t answer =>
    match w.calls t with
    | some ⟨request, .received⟩ =>
      match answer with
      | .error e => w.refuse t request e
      | .ok publicKey => w.set t request (.admitted publicKey)
    | _ => w
  | .validate t =>
    match w.calls t with
    | some ⟨request, .admitted publicKey⟩ =>
      if withinDrift epoch w.now request.timestamp then
        w.set t request (.validated publicKey w.now)
      else w.refuse t request .unauthorized
    | _ => w
  | .readClock t =>
    match w.calls t with
    | some ⟨request, .validated publicKey checkedAt⟩ => w.readClock t request publicKey checkedAt
    | _ => w
  | .claim t =>
    match w.calls t with
    | some ⟨request, .claiming publicKey checkedAt now⟩ =>
      w.claim lib t request publicKey checkedAt now
    | _ => w
  | .create t id =>
    match w.calls t with
    | some ⟨request, .verified publicKey⟩ =>
      { w.set t request (.answered (.ok id)) with created := (id, publicKey) :: w.created }
    | _ => w

/-- The lock is there soon after the check, the signature of what claims a nonce is valid, and two
requests that are signed with one nonce have one timestamp. -/
def InTime (lib : Libraries) (w : World) : Call → Prop
  | ⟨request, .claiming publicKey checkedAt _⟩ =>
    w.now ≤ checkedAt + slack ∧ verifyRefreshSignature lib publicKey request = true ∧
      ∀ a ∈ w.accepted, a.nonce = request.nonce → a.timestamp = request.timestamp
  | ⟨_, .received⟩ | ⟨_, .admitted _⟩ | ⟨_, .validated _ _⟩ | ⟨_, .verified _⟩
  | ⟨_, .answered _⟩ => True

instance (lib : Libraries) (w : World) (call : Call) : Decidable (InTime lib w call) :=
  match call with
  | ⟨_, .claiming _ _ _⟩ => inferInstanceAs (Decidable (_ ∧ _))
  | ⟨_, .received⟩ | ⟨_, .admitted _⟩ | ⟨_, .validated _ _⟩ | ⟨_, .verified _⟩
  | ⟨_, .answered _⟩ => inferInstanceAs (Decidable True)

def Timely (lib : Libraries) (w : World) : Event → Prop
  | .claim t => ∀ call ∈ w.calls t, InTime lib w call
  | .pass _ | .refresh _ _ | .lookUp _ _ | .validate _ | .readClock _ | .create _ _ => True

instance (lib : Libraries) (w : World) (event : Event) : Decidable (Timely lib w event) :=
  match event with
  | .claim _ => inferInstanceAs (Decidable (∀ call ∈ w.calls _, _))
  | .pass _ | .refresh _ _ | .lookUp _ _ | .validate _ | .readClock _ | .create _ _ =>
    inferInstanceAs (Decidable True)

def Call.Checked (epoch : Nat) (now : Nat) (call : Call) : Prop :=
  match call.phase with
  | .validated _ checkedAt =>
    checkedAt ≤ now ∧ withinDrift epoch checkedAt call.request.timestamp = true
  | .claiming _ checkedAt readAt =>
    checkedAt ≤ readAt ∧ readAt ≤ now ∧
      withinDrift epoch checkedAt call.request.timestamp = true
  | .received | .admitted _ | .verified _ | .answered _ => True

structure Inv (epoch : Nat) (w : World) : Prop where
  checked : ∀ t call, w.calls t = some call → call.Checked epoch w.now
  once : (w.accepted.map (·.nonce)).Nodup
  drift : ∀ a ∈ w.accepted, withinDrift epoch a.checkedAt a.timestamp = true
  consumed : ∀ nonce, w.refreshNonces nonce ≠ none → ∃ a ∈ w.accepted, trim a.nonce = nonce
  covered : ∀ a ∈ w.accepted, Covers refreshNonceTtl w.refreshNonces w.now (trim a.nonce)
    (lowest epoch a.timestamp)

theorem Call.Checked.later {call : Call} (h : call.Checked epoch now) (hnow : now ≤ now') :
    call.Checked epoch now' := by
  obtain ⟨request, phase⟩ := call
  cases phase with
  | received => trivial
  | admitted publicKey => trivial
  | validated publicKey checkedAt => exact ⟨Nat.le_trans h.1 hnow, h.2⟩
  | claiming publicKey checkedAt readAt => exact ⟨h.1, Nat.le_trans h.2.1 hnow, h.2.2⟩
  | verified publicKey => trivial
  | answered answer => trivial

theorem Inv.new (epoch : Nat) : Inv epoch World.new := by
  constructor
  · intro t call hcall
    cases hcall
  · exact List.nodup_nil
  · intro a ha
    cases ha
  · intro nonce hseen
    exact (hseen rfl).elim
  · intro a ha
    cases ha

variable {w : World} {request : RefreshRequest}

section
variable (h : Inv epoch w)
include h

theorem Inv.set {phase : Phase} (hphase : Call.Checked epoch w.now ⟨request, phase⟩) : Inv epoch (w.set t request phase) := by
  constructor
  · intro t' call hcall
    by_cases ht : t' = t
    · subst ht
      rw [World.set] at hcall
      dsimp only at hcall
      rw [Function.update_self] at hcall
      cases hcall
      exact hphase
    · rw [World.set] at hcall
      dsimp only at hcall
      rw [Function.update_of_ne ht] at hcall
      exact h.checked t' call hcall
  · exact h.once
  · exact h.drift
  · exact h.consumed
  · exact h.covered

theorem Inv.refuse :
    Inv epoch (w.refuse t request e) := h.set trivial

theorem Inv.pass (duration : Nat) :
    Inv epoch { w with now := w.now + duration } := by
  have hle : w.now ≤ w.now + duration := Nat.le_add_right ..
  constructor
  · intro t call hcall
    exact (h.checked t call hcall).later hle
  · exact h.once
  · exact h.drift
  · exact h.consumed
  · intro a ha
    exact (h.covered a ha).later hle

theorem Inv.retain (hle : now ≤ w.now) :
    Inv epoch { w with refreshNonces := retain refreshNonceTtl now w.refreshNonces } := by
  constructor
  · exact h.checked
  · exact h.once
  · exact h.drift
  · intro nonce hseen
    apply h.consumed nonce
    intro hnone
    apply hseen
    dsimp only
    rw [NonceWindow.retain, hnone]
    rfl
  · intro a ha
    exact (h.covered a ha).retain hle (Nat.le_refl _)

theorem Inv.accept (hnone : w.refreshNonces (trim request.nonce) = none)
    (hdrift : withinDrift epoch checkedAt request.timestamp = true) (hread : checkedAt ≤ now)
    (hsoon : w.now ≤ checkedAt + slack)
    (hsame : ∀ a ∈ w.accepted, a.nonce = request.nonce → a.timestamp = request.timestamp) :
    Inv epoch { w with
      refreshNonces := insert (trim request.nonce) now w.refreshNonces
      accepted := ⟨request.nonce, request.timestamp, checkedAt⟩ :: w.accepted } := by
  constructor
  · exact h.checked
  · rw [List.map_cons, List.nodup_cons]
    refine ⟨fun hmem => ?_, h.once⟩
    obtain ⟨a, ha, heq⟩ := List.mem_map.mp hmem
    have hpast := (h.covered a ha).past (by rw [heq]; exact hnone)
    rw [hsame a ha heq] at hpast
    exact not_past hdrift hsoon hpast
  · intro a ha
    rcases List.mem_cons.mp ha with heq | hold
    · subst heq
      exact hdrift
    · exact h.drift a hold
  · intro nonce hseen
    by_cases heq : nonce = trim request.nonce
    · exact ⟨_, List.mem_cons_self, heq.symm⟩
    · dsimp only at hseen
      rw [NonceWindow.insert, Function.update_of_ne heq] at hseen
      obtain ⟨a, ha, hnonce⟩ := h.consumed nonce hseen
      exact ⟨a, List.mem_cons_of_mem _ ha, hnonce⟩
  · intro a ha
    rcases List.mem_cons.mp ha with heq | hold
    · subst heq
      have hlow := (withinDrift_bounds hdrift).1
      apply Covers.of_insert w.refreshNonces
      dsimp only
      omega
    · exact (h.covered a hold).insert hnone (Nat.le_refl _)

theorem Inv.claim (hcall : w.calls t = some ⟨request, .claiming publicKey checkedAt now⟩)
    (htimely : Timely lib w (.claim t)) :
    Inv epoch (w.claim lib t request publicKey checkedAt now) := by
  obtain ⟨hread, hle, hdrift⟩ := h.checked t _ hcall
  obtain ⟨hsoon, hverify, hsame⟩ := htimely _ hcall
  have hretained := h.retain hle
  rw [World.claim]
  dsimp only
  split
  · exact hretained.refuse
  · rename_i hunseen
    rw [hverify, if_neg (by decide)]
    have hnone : NonceWindow.retain refreshNonceTtl now w.refreshNonces (trim request.nonce) = none :=
      Option.not_isSome_iff_eq_none.mp hunseen
    exact (hretained.accept hnone hdrift hread hsoon hsame).set trivial

theorem Inv.exec (htimely : Timely lib w event) :
    Inv epoch (w.exec lib epoch event) := by
  cases event with
  | pass duration => exact h.pass duration
  | refresh t request =>
    rw [World.exec]
    split
    · exact h.set trivial
    · exact h
  | lookUp t answer =>
    rw [World.exec]
    split
    · split
      · exact h.refuse
      · exact h.set trivial
    · exact h
  | validate t =>
    rw [World.exec]
    split
    · split
      · rename_i hin
        exact h.set ⟨Nat.le_refl _, hin⟩
      · exact h.refuse
    · exact h
  | readClock t =>
    rw [World.exec]
    split
    · rename_i request publicKey checkedAt hcall
      obtain ⟨hle, hin⟩ := h.checked t _ hcall
      rw [World.readClock]
      split
      · exact h.refuse
      · exact h.set ⟨hle, Nat.le_refl _, hin⟩
    · exact h
  | claim t =>
    rw [World.exec]
    split
    · rename_i request publicKey checkedAt now hcall
      exact h.claim hcall htimely
    · exact h
  | create t id =>
    rw [World.exec]
    split
    · rename_i request publicKey hcall
      have hset : Inv epoch (w.set t request (.answered (.ok id))) := h.set trivial
      exact ⟨hset.checked, hset.once, hset.drift, hset.consumed, hset.covered⟩
    · exact h

end

structure Sound (epoch : Nat) (w : World) : Prop where
  once : (w.accepted.map (·.nonce)).Nodup
  drift : ∀ a ∈ w.accepted, withinDrift epoch a.checkedAt a.timestamp = true
  /-- Only a request that was accepted has its nonce consumed. -/
  consumed : ∀ nonce, w.refreshNonces nonce ≠ none → ∃ a ∈ w.accepted, trim a.nonce = nonce

theorem run_sound (h : Run.Each (World.exec lib epoch) (Timely lib) World.new events) :
    Sound epoch (Run.run (World.exec lib epoch) World.new events) := by
  have hinv : Inv epoch (Run.run (World.exec lib epoch) World.new events) :=
    Run.Each.preserves (fun _ _ h htimely => h.exec htimely) (Inv.new epoch) h
  exact ⟨hinv.once, hinv.drift, hinv.consumed⟩

end Cdesktop.RelayRefresh
