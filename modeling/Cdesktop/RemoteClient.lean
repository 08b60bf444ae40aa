import Cdesktop.Run

/-! The client of the remote, and the credentials that it refreshes. -/

namespace Cdesktop.RemoteClient
set_option autoImplicit true

inductive HandoffErrorCode where
  | unsupportedProvider | invalidReturnUrl | invalidChallenge | providerError | notFound | expired
  | accessDenied | internalError
  | other (code : String)

def HandoffErrorCode.isDefinitiveAuthFailure : HandoffErrorCode → Bool
  | .expired | .accessDenied => true
  | .other code =>
    code ∈ ["invalid_token", "expired_token", "session_revoked", "token_reuse_detected",
      "provider_token_revoked", "identity_error"]
  | .unsupportedProvider | .invalidReturnUrl | .invalidChallenge | .providerError | .notFound
  | .internalError => false

def mapErrorCode (code : Option String) : HandoffErrorCode :=
  match code.getD "internal_error" with
  | "unsupported_provider" => .unsupportedProvider
  | "invalid_return_url" => .invalidReturnUrl
  | "invalid_challenge" => .invalidChallenge
  | "provider_error" => .providerError
  | "not_found" => .notFound
  | "expired" | "expired_token" => .expired
  | "access_denied" => .accessDenied
  | "internal_error" => .internalError
  | other => .other other

inductive RemoteClientError where
  | transport (message : String)
  | timeout
  | http (status : Nat) (body : String)
  | api (code : HandoffErrorCode)
  | auth
  | serde (message : String)
  | url (message : String)
  | storage (message : String)
  | token (message : String)

def RemoteClientError.shouldRetry : RemoteClientError → Bool
  | .transport _ | .timeout => true
  | .http status _ => 500 ≤ status ∧ status ≤ 599
  | .api _ | .auth | .serde _ | .url _ | .storage _ | .token _ => false

def RemoteClientError.isDefinitiveAuthFailure : RemoteClientError → Bool
  | .auth => true
  | .api code => code.isDefinitiveAuthFailure
  | .transport _ | .timeout | .http .. | .serde _ | .url _ | .storage _ | .token _ => false

def genericDegradedSlug : String := "remote_auth_unavailable"

def RemoteClientError.degradedSlug : RemoteClientError → Option String
  | .timeout | .transport _ | .storage _ | .serde _ => some genericDegradedSlug
  | .http status _ => if 500 ≤ status ∧ status ≤ 599 then some genericDegradedSlug else none
  | .api _ | .auth | .url _ | .token _ => none

/-- Instants are in nanoseconds. -/
structure Credentials where
  accessToken : Option String
  refreshToken : String
  expiresAt : Option Int
deriving DecidableEq

def tokenRefreshLeeway : Int := 20 * 1000000000

def Credentials.expiresSoon (leeway now : Int) (creds : Credentials) : Bool :=
  match creds.accessToken, creds.expiresAt with
  | some _, some expiresAt => expiresAt ≤ now + leeway
  | _, _ => true

/-- The access token, unless it is about to expire. -/
def Credentials.current (now : Int) (creds : Credentials) : Option String :=
  if creds.expiresSoon tokenRefreshLeeway now then none else creds.accessToken

/-- What the JSON and JWT libraries make of a text, or their error. -/
structure Libraries where
  tokenRefreshResponse : String → Except String (String × String)
  apiErrorResponse : String → Option String
  extractExpiration : String → Except String Int

inductive Reply where
  | transport (message : String)
  | timeout
  | response (status : Nat) (body : Except String String)

def operation : Reply → Except RemoteClientError (Except String String)
  | .transport message => .error (.transport message)
  | .timeout => .error .timeout
  | .response status body =>
    if 200 ≤ status ∧ status ≤ 299 then .ok body
    else if status = 401 ∨ status = 403 then .error .auth
    else .error (.http status (body.toOption.getD ""))

def maxTimes : Nat := 2

/-- The body of a success, as `post_public` reads it. -/
def readTokens (lib : Libraries) (body : Except String String) :
    Except RemoteClientError (String × String) :=
  match body.bind lib.tokenRefreshResponse with
  | .ok tokens => .ok tokens
  | .error message => .error (.serde message)

def mapApiError (lib : Libraries) (error : RemoteClientError) : RemoteClientError :=
  match error with
  | .http _ body =>
    match lib.apiErrorResponse body with
    | some code => .api (mapErrorCode (some code))
    | none => error
  | _ => error

inductive Call where
  | asked
  /-- For the refresh guard. -/
  | waiting
  | sending (creds : Credentials) (retries : Nat)
  | awaiting (creds : Credentials) (retries : Nat)
  | answered (creds : Credentials) (accessToken refreshToken : String)
  | saving (creds updated : Credentials)
  | refreshed (creds : Credentials) (result : Except RemoteClientError Credentials)
  /-- The file is removed, and the memory not yet cleared. -/
  | clearing (creds : Credentials) (error : RemoteClientError)
  | returned (result : Except RemoteClientError String)

/-- A login that has saved its credentials to the file, or a logout that has removed it. -/
inductive User where
  | saving (creds : Credentials)
  | clearing
  | done

inductive Exchange where
  | sent (refreshToken : String)
  /-- The remote has processed a request with the token, or may have. -/
  | processed (refreshToken : String)
deriving DecidableEq

/-- A write by the outcome of a refresh that was made with `creds`. -/
inductive Write where
  | file (creds : Credentials) (found updated : Option String)
  | memory (creds : Credentials) (found updated : Option Credentials)

structure Rotation where
  refreshToken : String
  file : Option String
  memory : Option Credentials

structure World where
  file : Option String
  memory : Option Credentials
  degradedSlug : Option String
  guard : Option Nat
  calls : List Call
  users : List User
  issued : List String
  exchanges : List Exchange
  writes : List Write
  rotations : List Rotation

/-- After `load` has read the file. -/
def World.new (stored : Option String) : World :=
  { file := stored, memory := stored.map fun refreshToken => ⟨none, refreshToken, none⟩
    degradedSlug := none, guard := none, calls := [], users := [], issued := stored.toList
    exchanges := [], writes := [], rotations := [] }

inductive Event where
  | call
  | read (i : Nat) (now : Int)
  /-- The guard is taken, and the credentials are read again. -/
  | lock (i : Nat) (now : Int)
  | send (i : Nat)
  /-- With `processed` if the remote has processed the request, or may have. -/
  | reply (i : Nat) (reply : Reply) (processed : Bool)
  | store (i : Nat) (failure : Option String)
  | remember (i : Nat)
  /-- The outcome is dealt with; `removed` tells whether a file to be removed is. -/
  | settle (i : Nat) (removed : Bool)
  | forget (i : Nat)
  | login (creds : Credentials) (failure : Option String)
  | loginRemember (j : Nat)
  | logout (removed : Bool)
  | logoutForget (j : Nat)

def World.put (i : Nat) (call : Call) (w : World) : World := { w with calls := w.calls.set i call }

def World.finish (i : Nat) (creds : Credentials) (result : Except RemoteClientError Credentials)
    (w : World) : World :=
  { w.put i (.refreshed creds result) with guard := none }

def World.read (i : Nat) (now : Int) (w : World) : World :=
  match w.memory with
  | none => w.put i (.returned (.error .auth))
  | some creds =>
    match creds.current now with
    | some token => w.put i (.returned (.ok token))
    | none => w.put i .waiting

def World.lock (i : Nat) (now : Int) (w : World) : World :=
  if w.guard.isSome then w
  else
    match w.memory with
    | none => w.put i (.returned (.error .auth))
    | some latest =>
      match latest.current now with
      | some token => { w.put i (.returned (.ok token)) with degradedSlug := none }
      | none => { w.put i (.sending latest 0) with guard := some i }

def World.send (i : Nat) (creds : Credentials) (retries : Nat) (w : World) : World :=
  { w.put i (.awaiting creds retries) with
    exchanges := w.exchanges ++ [.sent creds.refreshToken] }

def World.process (creds : Credentials) (processed : Bool) (w : World) : World :=
  if processed then { w with exchanges := w.exchanges ++ [.processed creds.refreshToken] } else w

def World.reply (lib : Libraries) (i : Nat) (creds : Credentials) (retries : Nat) (reply : Reply)
    (processed : Bool) (w : World) : World :=
  match operation reply with
  | .ok body =>
    let w := w.process creds true
    match readTokens lib body with
    | .ok (accessToken, refreshToken) =>
      { w.put i (.answered creds accessToken refreshToken) with
        issued := w.issued ++ [refreshToken] }
    | .error error => w.finish i creds (.error error)
  | .error error =>
    let w := w.process creds processed
    if error.shouldRetry ∧ retries < maxTimes then w.put i (.sending creds (retries + 1))
    else w.finish i creds (.error (mapApiError lib error))

/-- The refresh ends after its answer, with what is stored then. -/
def World.rotate (refreshToken : String) (w : World) : World :=
  { w with rotations := w.rotations ++ [⟨refreshToken, w.file, w.memory⟩] }

/-- `refresh_credentials` after the answer, up to the file of `save`. -/
def World.store (lib : Libraries) (i : Nat) (creds : Credentials) (accessToken refreshToken : String)
    (failure : Option String) (w : World) : World :=
  match lib.extractExpiration accessToken, failure with
  | .error message, _ => (w.rotate refreshToken).finish i creds (.error (.token message))
  | .ok _, some message => (w.rotate refreshToken).finish i creds (.error (.storage message))
  | .ok expiresAt, none =>
    { w.put i (.saving creds ⟨some accessToken, refreshToken, some expiresAt⟩) with
      file := some refreshToken
      writes := w.writes ++ [Write.file creds w.file (some refreshToken)] }

def World.remember (i : Nat) (creds updated : Credentials) (w : World) : World :=
  let w :=
    { w with
      memory := some updated, degradedSlug := none
      writes := w.writes ++ [Write.memory creds w.memory (some updated)] }
  (w.rotate updated.refreshToken).finish i creds (.ok updated)

def World.settle (i : Nat) (creds : Credentials) (result : Except RemoteClientError Credentials)
    (removed : Bool) (w : World) : World :=
  match result with
  | .ok updated =>
    { w.put i (.returned (updated.accessToken.elim (.error .auth) .ok)) with degradedSlug := none }
  | .error error =>
    if error.isDefinitiveAuthFailure then
      let w := w.put i (.clearing creds error)
      if removed then
        { w with file := none, writes := w.writes ++ [Write.file creds w.file none] }
      else w
    else
      { w.put i (.returned (.error error)) with
        degradedSlug := error.degradedSlug.elim w.degradedSlug some }

def World.forget (i : Nat) (creds : Credentials) (error : RemoteClientError) (w : World) : World :=
  { w.put i (.returned (.error error)) with
    memory := none, degradedSlug := none
    writes := w.writes ++ [Write.memory creds w.memory none] }

/-- The save of `finalize_login`, up to its file. -/
def World.login (creds : Credentials) (failure : Option String) (w : World) : World :=
  let w := { w with issued := w.issued ++ [creds.refreshToken] }
  if failure.isSome then w
  else { w with file := some creds.refreshToken, users := w.users ++ [.saving creds] }

def World.logout (removed : Bool) (w : World) : World :=
  { w with file := if removed then none else w.file, users := w.users ++ [.clearing] }

def World.step (lib : Libraries) (w : World) (event : Event) : World :=
  match event with
  | .call => { w with calls := w.calls ++ [.asked] }
  | .read i now =>
    match w.calls[i]? with
    | some .asked => w.read i now
    | _ => w
  | .lock i now =>
    match w.calls[i]? with
    | some .waiting => w.lock i now
    | _ => w
  | .send i =>
    match w.calls[i]? with
    | some (.sending creds retries) => w.send i creds retries
    | _ => w
  | .reply i reply processed =>
    match w.calls[i]? with
    | some (.awaiting creds retries) => w.reply lib i creds retries reply processed
    | _ => w
  | .store i failure =>
    match w.calls[i]? with
    | some (.answered creds accessToken refreshToken) =>
      w.store lib i creds accessToken refreshToken failure
    | _ => w
  | .remember i =>
    match w.calls[i]? with
    | some (.saving creds updated) => w.remember i creds updated
    | _ => w
  | .settle i removed =>
    match w.calls[i]? with
    | some (.refreshed creds result) => w.settle i creds result removed
    | _ => w
  | .forget i =>
    match w.calls[i]? with
    | some (.clearing creds error) => w.forget i creds error
    | _ => w
  | .login creds failure => w.login creds failure
  | .loginRemember j =>
    match w.users[j]? with
    | some (.saving creds) => { w with memory := some creds, users := w.users.set j .done }
    | _ => w
  | .logout removed => w.logout removed
  | .logoutForget j =>
    match w.users[j]? with
    | some .clearing => { w with memory := none, users := w.users.set j .done }
    | _ => w

end Cdesktop.RemoteClient
