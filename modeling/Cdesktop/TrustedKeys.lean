import Cdesktop.Bytes
import Cdesktop.Config
import Cdesktop.Run
import Mathlib.Data.List.Nodup

namespace Cdesktop.TrustedKeys
set_option autoImplicit true

structure TrustedRelayClient where
  clientId : Uuid
  clientName : String
  clientBrowser : String
  clientOs : String
  clientDevice : String
  publicKeyB64 : String
deriving DecidableEq

inductive TrustedKeyAuthError where
  | unauthorized
  | badRequest (message : String)
  | io
deriving DecidableEq

abbrev VerifyingKey := List UInt8

/-- What is used of the crates for base64, for the curve and for JSON. -/
structure Libraries where
  decode : String → Option (List UInt8)
  /-- `VerifyingKey::from_bytes` accepts the bytes. -/
  isKey : List UInt8 → Bool
  toStringPretty : List TrustedRelayClient → String
  fromStr : String → Except String (List TrustedRelayClient)

/-- The property `White_Space`. -/
def isWhiteSpace (c : Char) : Bool :=
  let n := c.toNat
  (9 ≤ n && n ≤ 13) || n = 0x20 || n = 0x85 || n = 0xA0 || n = 0x1680 ||
    (0x2000 ≤ n && n ≤ 0x200A) || n = 0x2028 || n = 0x2029 || n = 0x202F || n = 0x205F || n = 0x3000

def isBlank (s : String) : Bool := s.toList.all isWhiteSpace

def Libraries.text (lib : Libraries) (clients : List TrustedRelayClient) : String :=
  lib.toStringPretty clients ++ "\n"

/-- What the code relies on: a JSON text is read back and is not blank, and the canonical base64 of
bytes is one. -/
structure Libraries.Lawful (lib : Libraries) : Prop where
  roundTrip : ∀ clients, lib.fromStr (lib.text clients) = .ok clients
  notBlank : ∀ clients, isBlank (lib.text clients) = false
  canonical : ∀ s s' bytes, lib.decode s = some bytes → lib.decode s' = some bytes → s = s'

def parsePublicKeyBase64 (lib : Libraries) (rawPublicKey : String) :
    Except TrustedKeyAuthError VerifyingKey :=
  match lib.decode rawPublicKey with
  | none => .error .unauthorized
  | some bytes => if bytes.length = 32 ∧ lib.isKey bytes then .ok bytes else .error .unauthorized

def validateClient (lib : Libraries) (client : TrustedRelayClient) :
    Except TrustedKeyAuthError Unit :=
  if isBlank client.clientName then
    .error (.badRequest "Trusted key file contains invalid client name")
  else if isBlank client.clientBrowser then
    .error (.badRequest "Trusted key file contains invalid client browser")
  else if isBlank client.clientOs then
    .error (.badRequest "Trusted key file contains invalid client OS")
  else if isBlank client.clientDevice then
    .error (.badRequest "Trusted key file contains invalid client device")
  else
    match parsePublicKeyBase64 lib client.publicKeyB64 with
    | .error _ => .error (.badRequest "Trusted key file contains invalid keys")
    | .ok _ => .ok ()

def validateClients (lib : Libraries) : List TrustedRelayClient → Except TrustedKeyAuthError Unit
  | [] => .ok ()
  | client :: clients =>
    match validateClient lib client with
    | .error e => .error e
    | .ok () => validateClients lib clients

def readToString (bytes : List UInt8) : Option String := fromUtf8 bytes

/-- `read_trusted_clients_file`, from what the file holds, if it exists. -/
def readTrustedClientsFile (lib : Libraries) (file : Option (List UInt8)) :
    Except TrustedKeyAuthError (List TrustedRelayClient) :=
  match file with
  | none => .ok []
  | some bytes =>
    match readToString bytes with
    | none => .error .io
    | some contents =>
      if isBlank contents then .ok []
      else
        match lib.fromStr contents with
        | .error e => .error (.badRequest ("Trusted key file is invalid JSON: " ++ e))
        | .ok clients =>
          match validateClients lib clients with
          | .error e => .error e
          | .ok () => .ok clients

def TrustedRelayClient.matches (client existing : TrustedRelayClient) : Bool :=
  existing.clientId = client.clientId ∨ existing.publicKeyB64 = client.publicKeyB64

def replaceFirst (client : TrustedRelayClient) : List TrustedRelayClient → List TrustedRelayClient
  | [] => []
  | existing :: clients =>
    if client.matches existing then client :: clients
    else existing :: replaceFirst client clients

/-- The clients after an upsert, and whether the client is new. -/
def upsertClients (clients : List TrustedRelayClient) (client : TrustedRelayClient) :
    List TrustedRelayClient × Bool :=
  if clients.any client.matches then (replaceFirst client clients, false)
  else (clients ++ [client], true)

def removeClients (clients : List TrustedRelayClient) (clientId : Uuid) :
    List TrustedRelayClient :=
  clients.filter fun client => client.clientId ≠ clientId

def parseKeys (lib : Libraries) :
    List TrustedRelayClient → Except TrustedKeyAuthError (List VerifyingKey)
  | [] => .ok []
  | client :: clients =>
    match parsePublicKeyBase64 lib client.publicKeyB64 with
    | .error _ => .error .unauthorized
    | .ok key =>
      match parseKeys lib clients with
      | .error e => .error e
      | .ok keys => .ok (key :: keys)

def loadTrustedPublicKeys (lib : Libraries) (file : Option (List UInt8)) :
    Except TrustedKeyAuthError (List VerifyingKey) :=
  match readTrustedClientsFile lib file with
  | .error e => .error e
  | .ok clients => if clients.isEmpty then .error .unauthorized else parseKeys lib clients

inductive Op where
  | upsert (client : TrustedRelayClient)
  | remove (clientId : Uuid)
deriving DecidableEq

def Op.apply (clients : List TrustedRelayClient) : Op → List TrustedRelayClient
  | .upsert client => (upsertClients clients client).1
  | .remove clientId => removeClients clients clientId

/-- An upsert meets at most one of the clients, by its id or by its key. -/
def Op.Fits (clients : List TrustedRelayClient) : Op → Prop
  | .upsert client => ∀ a ∈ clients, ∀ b ∈ clients, client.matches a = true →
      client.matches b = true → a = b
  | .remove _ => True

structure Distinct (clients : List TrustedRelayClient) : Prop where
  ids : (clients.map (·.clientId)).Nodup
  keys : (clients.map (·.publicKeyB64)).Nodup

variable {client : TrustedRelayClient}

theorem matches_iff {existing : TrustedRelayClient} :
    client.matches existing = true ↔
      existing.clientId = client.clientId ∨ existing.publicKeyB64 = client.publicKeyB64 := by
  simp [TrustedRelayClient.matches]

theorem mem_replaceFirst (h : existing ∈ replaceFirst client clients) :
    existing = client ∨ existing ∈ clients := by
  induction clients with
  | nil => cases h
  | cons a clients ih =>
    rw [replaceFirst] at h
    split at h
    · rcases List.mem_cons.mp h with rfl | hold
      · exact Or.inl rfl
      · exact Or.inr (List.mem_cons_of_mem _ hold)
    · rcases List.mem_cons.mp h with rfl | hold
      · exact Or.inr List.mem_cons_self
      · exact (ih hold).imp id (List.mem_cons_of_mem _)

theorem not_matches_of_replaceFirst
    (hnodup : clients.Nodup) (hfits : Op.Fits clients (.upsert client))
    (hany : clients.any client.matches = true) (h : existing ∈ replaceFirst client clients) :
    existing = client ∨ client.matches existing = false := by
  induction clients with
  | nil => cases h
  | cons a clients ih =>
    rw [replaceFirst] at h
    obtain ⟨hnot, hnodup⟩ := List.nodup_cons.mp hnodup
    split at h
    · rename_i ha
      rcases List.mem_cons.mp h with rfl | hold
      · exact Or.inl rfl
      · right
        rw [Bool.eq_false_iff]
        intro hmatches
        have hsame := hfits a List.mem_cons_self existing (List.mem_cons_of_mem _ hold) ha hmatches
        exact hnot (hsame ▸ hold)
    · rename_i ha
      have hrest : clients.any client.matches = true := by
        simpa [ha] using hany
      rcases List.mem_cons.mp h with rfl | hold
      · exact Or.inr (by simpa using ha)
      · apply ih hnodup _ hrest hold
        intro b hb b' hb'
        exact hfits b (List.mem_cons_of_mem _ hb) b' (List.mem_cons_of_mem _ hb')

theorem mem_upsert (h : existing ∈ Op.apply clients (.upsert client)) :
    existing = client ∨ existing ∈ clients := by
  rw [Op.apply, upsertClients] at h
  split at h
  · exact mem_replaceFirst h
  · rcases List.mem_append.mp h with hold | hnew
    · exact Or.inr hold
    · exact Or.inl (List.mem_singleton.mp hnew)

theorem not_matches_of_upsert (hnodup : clients.Nodup)
    (hfits : Op.Fits clients (.upsert client)) (h : existing ∈ Op.apply clients (.upsert client)) :
    existing = client ∨ client.matches existing = false := by
  rw [Op.apply, upsertClients] at h
  split at h
  · rename_i hany
    exact not_matches_of_replaceFirst hnodup hfits hany h
  · rename_i hnone
    rcases List.mem_append.mp h with hold | hnew
    · right
      rw [Bool.eq_false_iff]
      intro hmatches
      exact hnone (List.any_eq_true.mpr ⟨existing, hold, hmatches⟩)
    · exact Or.inl (List.mem_singleton.mp hnew)

theorem nodup_replaceFirst {β : Type} {f : TrustedRelayClient → β}
    (hf : ∀ existing, f existing = f client → client.matches existing = true)
    (hnodup : (clients.map f).Nodup) (hfits : Op.Fits clients (.upsert client)) :
    ((replaceFirst client clients).map f).Nodup := by
  induction clients with
  | nil => exact hnodup
  | cons a clients ih =>
    rw [List.map_cons, List.nodup_cons] at hnodup
    rw [replaceFirst]
    split
    · rename_i ha
      rw [List.map_cons, List.nodup_cons]
      refine ⟨fun hmem => ?_, hnodup.2⟩
      obtain ⟨b, hb, hsame⟩ := List.mem_map.mp hmem
      have heq := hfits a List.mem_cons_self b (List.mem_cons_of_mem _ hb) ha (hf b hsame)
      exact hnodup.1 (heq ▸ List.mem_map_of_mem hb)
    · rename_i ha
      rw [List.map_cons, List.nodup_cons]
      constructor
      · intro hmem
        obtain ⟨b, hb, hsame⟩ := List.mem_map.mp hmem
        rcases mem_replaceFirst hb with rfl | hold
        · exact ha (hf a hsame.symm)
        · exact hnodup.1 (hsame ▸ List.mem_map_of_mem hold)
      · apply ih hnodup.2
        intro b hb b' hb'
        exact hfits b (List.mem_cons_of_mem _ hb) b' (List.mem_cons_of_mem _ hb')

theorem nodup_upsert {β : Type} {f : TrustedRelayClient → β}
    (hf : ∀ existing, f existing = f client → client.matches existing = true)
    (hnodup : (clients.map f).Nodup) (hfits : Op.Fits clients (.upsert client)) :
    ((Op.apply clients (.upsert client)).map f).Nodup := by
  rw [Op.apply, upsertClients]
  split
  · exact nodup_replaceFirst hf hnodup hfits
  · rename_i hnone
    rw [List.map_append, List.map_cons, List.map_nil]
    apply List.nodup_append.mpr
    refine ⟨hnodup, List.nodup_singleton _, fun a ha b hb => ?_⟩
    rw [List.mem_singleton] at hb
    subst hb
    rintro rfl
    obtain ⟨existing, hold, hsame⟩ := List.mem_map.mp ha
    exact hnone (List.any_eq_true.mpr ⟨existing, hold, hf existing hsame⟩)

theorem Distinct.apply (h : Distinct clients) {op : Op} (hfits : op.Fits clients) :
    Distinct (op.apply clients) := by
  cases op with
  | upsert client =>
    constructor
    · exact nodup_upsert (fun existing hid => matches_iff.mpr (Or.inl hid)) h.ids hfits
    · exact nodup_upsert (fun existing hkey => matches_iff.mpr (Or.inr hkey)) h.keys hfits
  | remove clientId =>
    constructor
    · exact (List.filter_sublist.map _).nodup h.ids
    · exact (List.filter_sublist.map _).nodup h.keys

/-- The clients after a history of operations. -/
abbrev registry (history : List Op) : List TrustedRelayClient := Run.run Op.apply [] history

theorem registry_distinct (h : Run.Each Op.apply (fun clients op => op.Fits clients) [] history) :
    Distinct (registry history) :=
  Run.Each.preserves (fun _ _ h hfits => h.apply hfits) ⟨List.nodup_nil, List.nodup_nil⟩ h

def OwnKey (client : TrustedRelayClient) (clients : List TrustedRelayClient) : Prop :=
  ∀ existing ∈ clients, existing.publicKeyB64 = client.publicKeyB64 →
    existing.clientId = client.clientId

def Op.upserts (key : String) : Op → Bool
  | .upsert client => client.publicKeyB64 = key
  | .remove _ => false

theorem key_preserved {P : TrustedRelayClient → Prop} {key : String}
    (hno : ∀ op ∈ history, op.upserts key = false)
    (h : ∀ existing ∈ clients, existing.publicKeyB64 = key → P existing) :
    ∀ existing ∈ Run.run Op.apply clients history, existing.publicKeyB64 = key → P existing := by
  induction history generalizing clients with
  | nil => exact h
  | cons op history ih =>
    rw [Run.run_cons]
    apply ih (fun op' hop' => hno op' (List.mem_cons_of_mem _ hop'))
    intro existing hexisting hkey
    cases op with
    | upsert client =>
      rcases mem_upsert hexisting with rfl | hold
      · have hnot := hno _ List.mem_cons_self
        simp [Op.upserts, hkey] at hnot
      · exact h existing hold hkey
    | remove clientId => exact h existing (List.mem_of_mem_filter hexisting) hkey

theorem removed_key (h : Run.Each Op.apply (fun clients op => op.Fits clients) []
      (before ++ .upsert client :: (between ++ .remove client.clientId :: after)))
    (hbetween : ∀ op ∈ between, op.upserts client.publicKeyB64 = false)
    (hafter : ∀ op ∈ after, op.upserts client.publicKeyB64 = false) :
    ∀ existing ∈ registry (before ++ .upsert client :: (between ++ .remove client.clientId :: after)),
      existing.publicKeyB64 ≠ client.publicKeyB64 := by
  obtain ⟨hbefore, hfits, -⟩ := h.append
  have hdistinct := registry_distinct hbefore
  have hown : OwnKey client (Op.apply (registry before) (.upsert client)) := by
    intro existing hexisting hkey
    rcases not_matches_of_upsert hdistinct.ids.of_map hfits hexisting with rfl | hnot
    · rfl
    · rw [matches_iff.mpr (Or.inr hkey)] at hnot
      cases hnot
  rw [registry, Run.run_append, Run.run_cons, Run.run_append, Run.run_cons]
  have hown' := key_preserved (P := fun existing => existing.clientId = client.clientId) hbetween hown
  intro existing hexisting hkey
  apply key_preserved (P := fun _ => False) hafter _ existing hexisting hkey
  intro existing' hexisting' hkey'
  obtain ⟨hold, hne⟩ := List.mem_filter.mp hexisting'
  simp only [ne_eq, decide_eq_true_eq] at hne
  exact hne (hown' existing' hold hkey')

end Cdesktop.TrustedKeys
