import Cdesktop.ExecutionProcess
import Cdesktop.Keyset
import Cdesktop.LogSession
import Mathlib.Data.Prod.Lex
import Mathlib.Data.Set.Function
import Mathlib.Data.String.Basic

namespace Cdesktop.ExecutionLog
open RecordStream
set_option autoImplicit true

structure SqlLogRow where
  rowId : Int
  executionId : Uuid
  insertedAt : String
  byteSize : Int
  logs : Bytes

structure FileState where
  dev : Nat
  ino : Nat
  modified : Time
  created : Option Time

structure PlainFile where
  bytes : Bytes
  state : FileState

/-- An owner in its place; `confirmed` once its publication has been. -/
structure OwnerFile where
  bytes : Bytes
  confirmed : Bool

inductive LegacySource where
  | absent
  | pruned
  | retained (reason : String)

structure MigrationReport where
  executionId : Uuid
  published : Bool
  ownerSha256 : Option String
  sql : LegacySource
  plainFile : LegacySource

inductive MigrationError where
  | noSuchExecution | notTerminal | executionChanged | leaseHeld
  | timestampTooLong | rowChanged | plainChanged | storageUnavailable
  | provenanceFailed | hashMismatch | invalidJson | unsealedOwner | destinationExists
  | missing
  | log (e : LogError)
  | io (text : String)

/-- What a migration runs with: the libraries, the JSON check of its bytes, and the reserve. -/
structure Migrator where
  codec : Codec
  validJson : Bytes → Bool
  reserve : Nat

def copyBytes : Nat := 64 * 1024

def ensure (p : Prop) [Decidable p] (e : MigrationError) : Except MigrationError Unit :=
  if p then .ok () else .error e

def orFail (o : Option α) (e : MigrationError) : Except MigrationError α :=
  match o with
  | some a => .ok a
  | none => .error e

def fromLog (x : Except LogError α) : Except MigrationError α := x.mapError .log

/-- The staging writer, when the copy has one, and how the system serves its appends. -/
abbrev Staging := Option (Recording × List Storage)

def refusing : Storage := ⟨none, 0, []⟩

def Staging.append (c : Codec) (bytes : Bytes) (source : Option LegacySqlRow) :
    Staging → Except MigrationError Staging
  | none => .ok none
  | some (r, ios) =>
    match r.appendLegacyBytes c bytes source (ios.headD refusing) with
    | (.ok .written, r) => .ok (some (r, ios.tail))
    | (.ok _, _) => .error .storageUnavailable
    | (.error e, _) => .error (.log e)

abbrev SqlKey := String ×ₗ Int

def SqlLogRow.key (row : SqlLogRow) : SqlKey := toLex (row.insertedAt, row.rowId)

/-- The local variables of `copy_sql`; a digest is kept as what it has been given. -/
structure SqlCopy where
  previous : Option SqlKey
  raw : Bytes
  evidence : Bytes
  rows : Nat

def SqlLogRow.source (row : SqlLogRow) : LegacySqlRow :=
  { rowId := row.rowId
    insertedAt := row.insertedAt
    reportedByteSize := row.byteSize
    originalBytes := row.logs.length }

/-- The inner loop: a row's bytes from `offset` on. -/
def copyChunks (c : Codec) (row : SqlLogRow) :
    Nat → Nat → SqlCopy → Staging → Except MigrationError (SqlCopy × Staging)
  | 0, _, _, _ => .error .rowChanged
  | fuel + 1, offset, copy, staging => do
    let bytes := (row.logs.drop offset).take copyBytes
    ensure (bytes.length = min (row.source.originalBytes - offset) copyBytes) .rowChanged
    let copy := { copy with raw := copy.raw ++ bytes, evidence := copy.evidence ++ bytes }
    let staging ← staging.append c bytes (some row.source)
    if offset + bytes.length = row.source.originalBytes then return (copy, staging)
    else copyChunks c row fuel (offset + bytes.length) copy staging

/-- The outer loop: row after row behind the last one copied. -/
def copyRows (c : Codec) (table : List SqlLogRow) :
    Nat → SqlCopy → Staging → Except MigrationError (SqlCopy × Staging)
  | 0, copy, staging => .ok (copy, staging)
  | fuel + 1, copy, staging =>
    match Keyset.next SqlLogRow.key copy.previous table with
    | none => .ok (copy, staging)
    | some row => do
      ensure ((utf8 row.insertedAt).length ≤ 1024) .timestampTooLong
      let copy := { copy with evidence := copy.evidence ++ row.source.hashHeader c }
      let (copy, staging) ← copyChunks c row (row.logs.length + 1) 0 copy staging
      copyRows c table fuel { copy with previous := some row.key, rows := copy.rows + 1 } staging

structure SqlEvidence where
  rows : Nat
  rawHash : Bytes
  fingerprint : String

def rowsOf (executionId : Uuid) (rows : List SqlLogRow) : List SqlLogRow :=
  rows.filter fun row => row.executionId = executionId

def copySql (c : Codec) (rows : List SqlLogRow) (executionId : Uuid) (staging : Staging) :
    Except MigrationError (SqlEvidence × Staging) := do
  let table := rowsOf executionId rows
  let (copy, staging) ← copyRows c table (table.length + 1) ⟨none, [], [], 0⟩ staging
  return (⟨copy.rows, c.sha256 copy.raw, hex (c.sha256 copy.evidence)⟩, staging)

/-- The chunks of a plain source, appended one after the other. -/
def copyPlainChunks (c : Codec) : List Bytes → Staging → Except MigrationError Staging
  | [], staging => .ok staging
  | bytes :: rest, staging => do
    let staging ← staging.append c bytes none
    copyPlainChunks c rest staging

def copyPlain (c : Codec) (file : PlainFile) (staging : Staging) :
    Except MigrationError (Bytes × Staging) := do
  let staging ← copyPlainChunks c (frameChunks file.bytes) staging
  return (c.sha256 file.bytes, staging)

def sameFileState (left right : PlainFile) : Bool :=
  left.state.dev = right.state.dev ∧ left.state.ino = right.state.ino ∧
    left.bytes.length = right.bytes.length ∧ left.state.modified = right.state.modified ∧
    left.state.created = right.state.created

def executionLogSha256 (c : Codec) (owner : Bytes) : Except MigrationError Bytes := do
  let decoded ← fromLog (expect (c.decompress owner) .undecodable)
  return c.sha256 decoded

def Migrator.validateJson (m : Migrator) (owner : Bytes) : Except MigrationError Unit := do
  let decoded ← fromLog (expect (m.codec.decompress owner) .undecodable)
  ensure (m.validJson decoded = true) .invalidJson

/-- What outlives a process: the tables, the owners and the plain sources by session and execution. -/
structure LogDisk where
  processes : Uuid → Option (Uuid × ExecutionProcessStatus)
  rows : List SqlLogRow
  owners : Uuid → Uuid → Option OwnerFile
  plains : Uuid → Uuid → Option PlainFile

def LogDisk.terminalSession (d : LogDisk) (executionId : Uuid) : Except MigrationError Uuid :=
  match d.processes executionId with
  | none => .error .noSuchExecution
  | some (session, status) => do
    ensure (status = .completed ∨ status = .failed ∨ status = .killed) .notTerminal
    return session

def place (files : Uuid → Uuid → Option α) (session executionId : Uuid) (file : Option α) :
    Uuid → Uuid → Option α :=
  fun s e => if s = session ∧ e = executionId then file else files s e

structure MigrationTurn where
  refusal : Option String
  sidecar : Bool
  appends : List Storage
  sealing : Storage

/-- The staged owner, copied, sealed and verified; none when there is nothing to migrate. -/
def Migrator.stage (m : Migrator) (turn : MigrationTurn) (d : LogDisk) (executionId session : Uuid) :
    Except MigrationError (Option Bytes) := do
  let c := m.codec
  let opened ← fromLog (openLog c m.reserve turn.sidecar (some []) none).1
  let (sql, staging) ← copySql c d.rows executionId (some (opened, turn.appends))
  let copied ←
    if 0 < sql.rows then pure (some (sql.rawHash, staging))
    else
      match d.plains session executionId with
      | some file => (copyPlain c file staging).map some
      | none => pure none
  match copied with
  | none => return none
  | some (_, none) => return none
  | some (expectedHash, some (writer, _)) =>
    let (finished, writer) := writer.finish c .legacyUnknown turn.sealing
    fromLog finished
    let summary ← fromLog (scanOwner c writer.owner)
    ensure (sql.rows = 0 ∨ summary.legacySqlFingerprint = some sql.fingerprint) .provenanceFailed
    let hash ← executionLogSha256 c writer.owner
    ensure (hash = expectedHash) .hashMismatch
    m.validateJson writer.owner
    return some writer.owner

/-- `migrate_inner` between two of its awaits. -/
inductive MigrationPhase where
  | entered
  | waiting (session : Uuid)
  | leased (session : Uuid)
  | staging (session : Uuid)
  | publishing (session : Uuid) (temp : Bytes)
  | syncing (session : Uuid)
  | verifying (session : Uuid) (report : MigrationReport)
  | confirming (session : Uuid) (report : MigrationReport) (summary : OwnerSummary)
      (ownerHash : Bytes)
  | pruningSql (session : Uuid) (report : MigrationReport) (summary : OwnerSummary)
      (ownerHash : Bytes) (durabilityError : Option String)
  | pruningPlain (session : Uuid) (report : MigrationReport) (ownerHash : Bytes)
      (durabilityError : Option String)
  | comparing (session : Uuid) (report : MigrationReport) (ownerHash : Bytes)
      (durabilityError : Option String) (hash : Bytes) (observed : PlainFile)
  | returned (result : Except MigrationError MigrationReport)

def MigrationPhase.lease : MigrationPhase → Option Uuid
  | .entered | .waiting _ | .returned _ => none
  | .leased session | .staging session | .publishing session _ | .syncing session
  | .verifying session _ | .confirming session _ _ _ | .pruningSql session _ _ _ _
  | .pruningPlain session _ _ _ | .comparing session _ _ _ _ _ => some session

structure MigrationCall where
  executionId : Uuid
  phase : MigrationPhase

def emptyReport (executionId : Uuid) (published : Bool) : MigrationReport :=
  { executionId
    published
    ownerSha256 := none
    sql := .absent
    plainFile := .absent }

def Migrator.verify (m : Migrator) (d : LogDisk) (executionId session : Uuid) :
    Except MigrationError (OwnerSummary × Bytes) := do
  let file ← orFail (d.owners session executionId) .missing
  let summary ← fromLog (scanOwner m.codec file.bytes)
  ensure (summary.outcome.isSome = true) .unsealedOwner
  m.validateJson file.bytes
  let ownerHash ← executionLogSha256 m.codec file.bytes
  return (summary, ownerHash)

/-- The fresh verification of the SQL source and its deletion, in one transaction. -/
def Migrator.pruneSql (m : Migrator) (d : LogDisk) (executionId session : Uuid)
    (summary : OwnerSummary) (ownerHash : Bytes) (durabilityError : Option String) :
    Except MigrationError (LegacySource × LogDisk) := do
  let found ← d.terminalSession executionId
  ensure (found = session) .executionChanged
  let (current, _) ← copySql m.codec d.rows executionId none
  if current.rows = 0 then return (.absent, d)
  match durabilityError with
  | some reason => return (.retained reason, d)
  | none =>
    if current.rawHash = ownerHash ∧ summary.legacySqlFingerprint = some current.fingerprint then
      return (.pruned, { d with rows := d.rows.filter fun row => row.executionId ≠ executionId })
    else return (.retained "owner bytes or original SQL metadata differ", d)

def comparePlain (d : LogDisk) (executionId session : Uuid) (ownerHash : Bytes)
    (durabilityError : Option String) (hash : Bytes) (observed : PlainFile) :
    Except MigrationError (LegacySource × LogDisk) := do
  let current ← orFail (d.plains session executionId) .missing
  match durabilityError with
  | some reason => return (.retained reason, d)
  | none =>
    if hash = ownerHash ∧ sameFileState observed current = true then
      return (.pruned, { d with plains := place d.plains session executionId none })
    else return (.retained "plain source differs or changed during verification", d)

def confirm (file : OwnerFile) : OwnerFile := { file with confirmed := true }

/-- One step of a call, with what the call goes on as and the disk it leaves. -/
def MigrationCall.step (m : Migrator) (turn : MigrationTurn) (leaseHeld : Bool) (d : LogDisk)
    (call : MigrationCall) : MigrationPhase × LogDisk :=
  let id := call.executionId
  let failed (e : MigrationError) : MigrationPhase × LogDisk := (.returned (.error e), d)
  match call.phase, turn.refusal with
  | .returned result, _ => (.returned result, d)
  | .confirming session report summary ownerHash, some text =>
    (.pruningSql session report summary ownerHash
      (some ("publication durability unavailable: " ++ text)), d)
  | .confirming session report summary ownerHash, none =>
    (.pruningSql session report summary ownerHash none,
      { d with owners := place d.owners session id ((d.owners session id).map confirm) })
  | _, some text => failed (.io text)
  | .entered, none =>
    match d.terminalSession id with
    | .error e => failed e
    | .ok session => (.waiting session, d)
  | .waiting session, none => if leaseHeld then failed .leaseHeld else (.leased session, d)
  | .leased session, none =>
    match d.terminalSession id with
    | .error e => failed e
    | .ok found => if found = session then (.staging session, d) else failed .executionChanged
  | .staging session, none =>
    if (d.owners session id).isSome then (.verifying session (emptyReport id false), d)
    else
      match m.stage turn d id session with
      | .error e => failed e
      | .ok none => (.returned (.ok (emptyReport id false)), d)
      | .ok (some temp) => (.publishing session temp, d)
  | .publishing session temp, none =>
    if (d.owners session id).isSome then failed .destinationExists
    else (.syncing session, { d with owners := place d.owners session id (some ⟨temp, false⟩) })
  | .syncing session, none =>
    (.verifying session (emptyReport id true),
      { d with owners := place d.owners session id ((d.owners session id).map confirm) })
  | .verifying session report, none =>
    match m.verify d id session with
    | .error e => failed e
    | .ok (summary, ownerHash) =>
      (.confirming session { report with ownerSha256 := some (hex ownerHash) } summary ownerHash,
        d)
  | .pruningSql session report summary ownerHash durabilityError, none =>
    match m.pruneSql d id session summary ownerHash durabilityError with
    | .error e => failed e
    | .ok (sql, disk) =>
      (.pruningPlain session { report with sql } ownerHash durabilityError, disk)
  | .pruningPlain session report ownerHash durabilityError, none =>
    match d.plains session id with
    | none => (.returned (.ok report), d)
    | some file =>
      match copyPlain m.codec file none with
      | .error e => failed e
      | .ok (hash, _) => (.comparing session report ownerHash durabilityError hash file, d)
  | .comparing session report ownerHash durabilityError hash observed, none =>
    match comparePlain d id session ownerHash durabilityError hash observed with
    | .error e => failed e
    | .ok (plainFile, disk) => (.returned (.ok { report with plainFile }), disk)

structure LogWorld extends LogDisk where
  calls : List MigrationCall

/-- What may happen: a call, a step of one, the end of the process, with the owners lost whose
publication nobody confirmed, or an execution taking another status. -/
inductive MigrationEvent where
  | call (executionId : Uuid)
  | step (i : Nat) (turn : MigrationTurn)
  | crash (lost : List (Uuid × Uuid))
  | settle (executionId : Uuid) (status : ExecutionProcessStatus)

def LogWorld.leaseHeld (w : LogWorld) (call : MigrationCall) : Bool :=
  match call.phase with
  | .waiting session =>
    w.calls.any fun other => other.executionId = call.executionId ∧ other.phase.lease = some session
  | _ => false

def LogWorld.step (m : Migrator) (w : LogWorld) : MigrationEvent → LogWorld
  | .call executionId => { w with calls := w.calls ++ [⟨executionId, .entered⟩] }
  | .step i turn =>
    match w.calls[i]? with
    | none => w
    | some call =>
      let (phase, disk) := call.step m turn (w.leaseHeld call) w.toLogDisk
      ⟨disk, w.calls.set i ⟨call.executionId, phase⟩⟩
  | .crash lost =>
    { w with
      owners := fun s e => (w.owners s e).filter fun file => file.confirmed ∨ (s, e) ∉ lost
      calls := [] }
  | .settle executionId status =>
    { w with
      processes := fun id =>
        if id = executionId then (w.processes id).map fun p => (p.1, status) else w.processes id }

def LogWorld.run (m : Migrator) (w : LogWorld) (events : List MigrationEvent) : LogWorld :=
  events.foldl (LogWorld.step m) w

theorem ensure_eq_ok {p : Prop} [Decidable p] : ensure p e = .ok u ↔ p := by
  unfold ensure
  split <;> simp [*]

theorem orFail_eq_ok {o : Option α} : orFail o e = .ok a ↔ o = some a := by
  cases o <;> simp [orFail]

theorem fromLog_eq_ok {x : Except LogError α} : fromLog x = .ok a ↔ x = .ok a := by
  cases x <;> simp [fromLog, Except.mapError]

theorem migration_bind_eq_ok {x : Except MigrationError α} {f : α → Except MigrationError β} :
    x >>= f = .ok b ↔ ∃ a, x = .ok a ∧ f a = .ok b := by
  cases x <;> simp [bind, Except.bind]

theorem copyChunks_ok (h : copyChunks c row fuel offset copy staging = .ok (copy', staging')) :
    copy' = { copy with
      raw := copy.raw ++ row.logs.drop offset
      evidence := copy.evidence ++ row.logs.drop offset } := by
  induction fuel generalizing offset copy staging with
  | zero => cases h
  | succ fuel ih =>
    simp only [copyChunks, migration_bind_eq_ok, ensure_eq_ok, exists_and_left] at h
    obtain ⟨hlen, -, staging₁, -, h⟩ := h
    have hoffset : row.source.originalBytes = row.logs.length := rfl
    rw [hoffset] at hlen h
    generalize hb : (row.logs.drop offset).take copyBytes = bytes at hlen h
    have hsplit : bytes ++ row.logs.drop (offset + bytes.length) = row.logs.drop offset := by
      have hk : (row.logs.drop offset).take bytes.length = bytes := by
        rw [← hb, List.length_take, List.take_eq_take_iff]
        omega
      conv_rhs => rw [← List.take_append_drop bytes.length (row.logs.drop offset), hk,
        List.drop_drop]
    split at h
    · rename_i hend
      cases h
      rw [hend, List.drop_length, List.append_nil] at hsplit
      rw [hsplit]
    · rw [ih h, ← hsplit]
      simp only [List.append_assoc]

/-- The digest input that identifies original rows: each with its insertion metadata. -/
def rowEvidence (c : Codec) (rows : List SqlLogRow) : Bytes :=
  rows.flatMap fun row => row.source.hashHeader c ++ row.logs

theorem copyRows_ok (h : copyRows c table fuel copy staging = .ok (copy', staging')) :
    copy'.raw = copy.raw ++
        (Keyset.walk SqlLogRow.key table fuel copy.previous).flatMap SqlLogRow.logs ∧
      copy'.evidence = copy.evidence ++
        rowEvidence c (Keyset.walk SqlLogRow.key table fuel copy.previous) ∧
      copy'.rows = copy.rows + (Keyset.walk SqlLogRow.key table fuel copy.previous).length := by
  induction fuel generalizing copy staging with
  | zero =>
    cases h
    simp [Keyset.walk, rowEvidence]
  | succ fuel ih =>
    rw [copyRows] at h
    rw [Keyset.walk]
    cases hnext : Keyset.next SqlLogRow.key copy.previous table with
    | none =>
      rw [hnext] at h
      cases h
      simp [rowEvidence]
    | some row =>
      rw [hnext] at h
      simp only [migration_bind_eq_ok, ensure_eq_ok, exists_and_left] at h
      obtain ⟨-, -, ⟨copy₁, staging₁⟩, hchunks, h⟩ := h
      obtain ⟨hraw, hevidence, hrows⟩ := ih h
      have hcopy := copyChunks_ok hchunks
      rw [List.drop_zero] at hcopy
      rw [hraw, hevidence, hrows, hcopy]
      refine ⟨?_, ?_, ?_⟩
      · simp only [List.flatMap_cons, List.append_assoc]
      · simp only [rowEvidence, List.flatMap_cons, List.append_assoc]
      · simp only [List.length_cons]
        omega

theorem rowsOf_keys (h : (rows.map SqlLogRow.rowId).Nodup) (executionId : Uuid) :
    ((rowsOf executionId rows).map SqlLogRow.key).Nodup := by
  have hsub : ((rowsOf executionId rows).map SqlLogRow.rowId).Nodup :=
    h.sublist (List.filter_sublist.map _)
  have hsnd : ((rowsOf executionId rows).map SqlLogRow.key).map (fun key => (ofLex key).2) =
      (rowsOf executionId rows).map SqlLogRow.rowId := by
    rw [List.map_map]
    rfl
  rw [← hsnd] at hsub
  exact hsub.of_map

/-- All the rows of an execution in the order they are read in. -/
structure InOrder (rows ordered : List SqlLogRow) : Prop where
  perm : ordered.Perm rows
  sorted : ordered.Pairwise fun row row' => row.key < row'.key

theorem copySql_ok (hids : (rows.map SqlLogRow.rowId).Nodup)
    (h : copySql c rows executionId staging = .ok (sql, staging')) :
    ∃ ordered, InOrder (rowsOf executionId rows) ordered ∧
      sql = ⟨ordered.length, c.sha256 (ordered.flatMap SqlLogRow.logs),
        hex (c.sha256 (rowEvidence c ordered))⟩ := by
  simp only [copySql, migration_bind_eq_ok] at h
  obtain ⟨⟨copy, staging₁⟩, hrows, h⟩ := h
  cases h
  obtain ⟨hraw, hevidence, hcount⟩ := copyRows_ok hrows
  have hfuel : (Keyset.behind SqlLogRow.key none (rowsOf executionId rows)).length ≤
      (rowsOf executionId rows).length + 1 := by
    rw [Keyset.behind_none]
    omega
  have hperm := Keyset.walk_perm (rowsOf_keys hids executionId) hfuel
  rw [Keyset.behind_none] at hperm
  refine ⟨_, ⟨hperm, (Keyset.walk_sorted _ _ _).1⟩, ?_⟩
  rw [hraw, hevidence, hcount, List.nil_append, List.nil_append, Nat.zero_add]

/-- The owner is valid, sealed and confirmed in its place, and holds exactly these bytes. -/
structure OwnerFile.Keeps (c : Codec) (file : OwnerFile) (summary : OwnerSummary)
    (bytes : Bytes) : Prop where
  scanned : scanOwner c file.bytes = .ok summary
  sealed : summary.outcome.isSome = true
  holds : ∃ frames, OwnerTrace c ⟨0, file.bytes⟩ frames ∧ content frames = bytes
  confirmed : file.confirmed = true

/-- The rows of the execution, bytes and insertion metadata, are in its owner. -/
def SqlKept (c : Codec) (d₀ d : LogDisk) (executionId : Uuid) : Prop :=
  ∃ session status file summary ordered, d₀.processes executionId = some (session, status) ∧
    d.owners session executionId = some file ∧
    InOrder (rowsOf executionId d₀.rows) ordered ∧
    file.Keeps c summary (ordered.flatMap SqlLogRow.logs) ∧
    summary.legacySqlFingerprint = some (hex (c.sha256 (rowEvidence c ordered)))

def PlainKept (c : Codec) (d₀ d : LogDisk) (session executionId : Uuid) : Prop :=
  ∃ plain file summary, d₀.plains session executionId = some plain ∧
    d.owners session executionId = some file ∧ file.Keeps c summary plain.bytes

structure SourcesKept (c : Codec) (d₀ d : LogDisk) : Prop where
  sql : ∀ e, rowsOf e d.rows = rowsOf e d₀.rows ∨ (rowsOf e d.rows = [] ∧ SqlKept c d₀ d e)
  plain : ∀ s e, d.plains s e = d₀.plains s e ∨ (d.plains s e = none ∧ PlainKept c d₀ d s e)
  ids : (d.rows.map SqlLogRow.rowId).Nodup
  sessions : ∀ e, (d.processes e).map Prod.fst = (d₀.processes e).map Prod.fst

def Retains (d d' : LogDisk) : Prop :=
  ∀ s e file, d.owners s e = some file → file.confirmed = true → d'.owners s e = some file

theorem SqlKept.retained (h : SqlKept c d₀ d e) (hr : Retains d d') : SqlKept c d₀ d' e := by
  obtain ⟨session, status, file, summary, ordered, hp, hfile, horder, hkeeps, hfp⟩ := h
  exact ⟨session, status, file, summary, ordered, hp, hr _ _ _ hfile hkeeps.confirmed, horder,
    hkeeps, hfp⟩

theorem PlainKept.retained (h : PlainKept c d₀ d s e) (hr : Retains d d') :
    PlainKept c d₀ d' s e := by
  obtain ⟨plain, file, summary, hplain, hfile, hkeeps⟩ := h
  exact ⟨plain, file, summary, hplain, hr _ _ _ hfile hkeeps.confirmed, hkeeps⟩

theorem SourcesKept.retained (h : SourcesKept c d₀ d) (hr : Retains d d')
    (hrows : d'.rows = d.rows) (hplains : d'.plains = d.plains)
    (hsessions : ∀ e, (d'.processes e).map Prod.fst = (d.processes e).map Prod.fst) :
    SourcesKept c d₀ d' where
  sql e := by
    rw [hrows]
    exact (h.sql e).imp_right (And.imp_right fun hk => hk.retained hr)
  plain s e := by
    rw [hplains]
    exact (h.plain s e).imp_right (And.imp_right fun hk => hk.retained hr)
  ids := by
    rw [hrows]
    exact h.ids
  sessions e := (hsessions e).trans (h.sessions e)

def Verified (c : Codec) (d : LogDisk) (session executionId : Uuid) (summary : OwnerSummary)
    (ownerHash : Bytes) (confirmed : Prop) : Prop :=
  ∃ file, d.owners session executionId = some file ∧ scanOwner c file.bytes = .ok summary ∧
    summary.outcome.isSome = true ∧ executionLogSha256 c file.bytes = .ok ownerHash ∧
    (confirmed → file.confirmed = true)

theorem executionLogSha256_ok (hc : c.RoundTrips) (hscan : scanOwner c owner = .ok summary)
    (hsealed : summary.outcome.isSome = true) (hhash : executionLogSha256 c owner = .ok digest) :
    ∃ frames, OwnerTrace c ⟨0, owner⟩ frames ∧ c.decompress owner = some (content frames) ∧
      digest = c.sha256 (content frames) := by
  obtain ⟨frames, ht, -⟩ := scanOwner_ok.mp hscan
  have hne : owner ≠ [] := by
    rintro rfl
    obtain rfl : (⟨0, none, false, none, 0⟩ : OwnerSummary) = summary := Except.ok.inj hscan
    cases hsealed
  simp only [executionLogSha256, migration_bind_eq_ok, fromLog_eq_ok, expect_eq_ok] at hhash
  obtain ⟨decoded, hdecoded, hhash⟩ := hhash
  have hcontent := decompress_ownerTrace hc ht hne
  refine ⟨frames, ht, hcontent, ?_⟩
  rw [hdecoded] at hcontent
  rw [← Option.some.inj hcontent]
  exact (Except.ok.inj hhash).symm

/-- The bytes whose digests are compared: those of the sources and of the owners. -/
inductive LogDisk.Hashed (c : Codec) (d : LogDisk) : Bytes → Prop
  | sql : InOrder (rowsOf e d.rows) ordered → d.Hashed c (ordered.flatMap SqlLogRow.logs)
  | plain : d.plains s e = some file → d.Hashed c file.bytes
  | owner : d.owners s e = some file → c.decompress file.bytes = some bytes → d.Hashed c bytes

def LogDisk.NoCollision (c : Codec) (d : LogDisk) : Prop :=
  Set.InjOn c.sha256 {bytes | d.Hashed c bytes}

theorem Verified.keeps (hc : c.RoundTrips) (hsha : d.NoCollision c) (hbytes : d.Hashed c bytes)
    (h : Verified c d session executionId summary (c.sha256 bytes) confirmed) (hconf : confirmed) :
    ∃ file, d.owners session executionId = some file ∧ file.Keeps c summary bytes := by
  obtain ⟨file, hfile, hscan, hsealed, hhash, hconfirmed⟩ := h
  obtain ⟨frames, ht, hcontent, heq⟩ := executionLogSha256_ok hc hscan hsealed hhash
  have hsame := hsha hbytes (LogDisk.Hashed.owner hfile hcontent) heq
  exact ⟨file, hfile, hscan, hsealed, ⟨frames, ht, hsame.symm⟩, hconfirmed hconf⟩

theorem terminalSession_ok {d : LogDisk} (h : d.terminalSession executionId = .ok session) :
    (d.processes executionId).map Prod.fst = some session := by
  unfold LogDisk.terminalSession at h
  split at h
  · cases h
  · rename_i found status hentry
    rw [migration_bind_eq_ok] at h
    obtain ⟨-, -, h⟩ := h
    cases h
    rw [hentry]
    rfl

variable {m : Migrator}

theorem pruneSql_ok (hc : m.codec.RoundTrips) (hsha : d.NoCollision m.codec)
    (hids : (d.rows.map SqlLogRow.rowId).Nodup)
    (hv : Verified m.codec d session e summary ownerHash (durabilityError = none))
    (h : m.pruneSql d e session summary ownerHash durabilityError = .ok (source, d')) :
    d' = d ∨ ((∃ ordered file, InOrder (rowsOf e d.rows) ordered ∧
        d.owners session e = some file ∧
        file.Keeps m.codec summary (ordered.flatMap SqlLogRow.logs) ∧
        summary.legacySqlFingerprint =
          some (hex (m.codec.sha256 (rowEvidence m.codec ordered)))) ∧
      d' = { d with rows := d.rows.filter fun row => row.executionId ≠ e }) := by
  simp only [Migrator.pruneSql, migration_bind_eq_ok, ensure_eq_ok] at h
  obtain ⟨found, -, -, -, ⟨current, staging⟩, hcopy, h⟩ := h
  obtain ⟨ordered, horder, rfl⟩ := copySql_ok hids hcopy
  split at h
  · cases h
    exact Or.inl rfl
  split at h
  · cases h
    exact Or.inl rfl
  split at h
  · rename_i hmatch
    obtain ⟨hhash, hfp⟩ := hmatch
    rw [← hhash] at hv
    obtain ⟨file, hfile, hkeeps⟩ := hv.keeps hc hsha (.sql horder) rfl
    cases h
    exact Or.inr ⟨⟨ordered, file, horder, hfile, hkeeps, hfp⟩, rfl⟩
  · cases h
    exact Or.inl rfl

theorem comparePlain_ok (h : comparePlain d e session ownerHash durabilityError digest observed =
      .ok (source, d')) :
    d' = d ∨ (durabilityError = none ∧ digest = ownerHash ∧
      (∃ file, d.plains session e = some file) ∧
      d' = { d with plains := place d.plains session e none }) := by
  simp only [comparePlain, migration_bind_eq_ok, orFail_eq_ok] at h
  obtain ⟨current, hcurrent, h⟩ := h
  split at h
  · cases h
    exact Or.inl rfl
  split at h
  · rename_i hmatch
    cases h
    exact Or.inr ⟨rfl, hmatch.1, ⟨current, hcurrent⟩, rfl⟩
  · cases h
    exact Or.inl rfl

def Known (d : LogDisk) (executionId session : Uuid) : Prop :=
  (d.processes executionId).map Prod.fst = some session

def MigrationCall.Holds (c : Codec) (d : LogDisk) (call : MigrationCall) : Prop :=
  match call.phase with
  | .entered | .returned _ => True
  | .waiting session | .leased session | .staging session | .publishing session _
  | .syncing session | .verifying session _ => Known d call.executionId session
  | .confirming session _ summary ownerHash => Known d call.executionId session ∧
      Verified c d session call.executionId summary ownerHash False
  | .pruningSql session _ summary ownerHash durabilityError =>
    Known d call.executionId session ∧
      Verified c d session call.executionId summary ownerHash (durabilityError = none)
  | .pruningPlain session _ ownerHash durabilityError => Known d call.executionId session ∧
      ∃ summary, Verified c d session call.executionId summary ownerHash (durabilityError = none)
  | .comparing session _ ownerHash durabilityError digest _ =>
    (∃ summary, Verified c d session call.executionId summary ownerHash (durabilityError = none)) ∧
      ∀ file, d.plains session call.executionId = some file → c.sha256 file.bytes = digest

structure Later (d d' : LogDisk) : Prop where
  owners : ∀ s e file, d.owners s e = some file → ∃ file', d'.owners s e = some file' ∧
    file'.bytes = file.bytes ∧ (file.confirmed = true → file'.confirmed = true)
  plains : ∀ s e file, d'.plains s e = some file → d.plains s e = some file
  sessions : ∀ e, (d'.processes e).map Prod.fst = (d.processes e).map Prod.fst

theorem Later.retains (h : Later d d') : Retains d d' := by
  intro s e file hfile hconfirmed
  obtain ⟨file', hfile', hbytes, hconfirmed'⟩ := h.owners s e file hfile
  rw [hfile']
  have := hconfirmed' hconfirmed
  cases file'
  cases file
  simp_all

theorem Verified.later (h : Verified c d session e summary digest p) (hl : Later d d') :
    Verified c d' session e summary digest p := by
  obtain ⟨file, hfile, hscan, hsealed, hhash, hconf⟩ := h
  obtain ⟨file', hfile', hbytes, hconfirmed⟩ := hl.owners _ _ _ hfile
  rw [← hbytes] at hscan hhash
  exact ⟨file', hfile', hscan, hsealed, hhash, fun hp => hconfirmed (hconf hp)⟩

theorem Known.later (h : Known d e session) (hl : Later d d') : Known d' e session :=
  (hl.sessions e).trans h

theorem MigrationCall.Holds.later (h : MigrationCall.Holds c d call) (hl : Later d d') :
    call.Holds c d' := by
  obtain ⟨e, phase⟩ := call
  cases phase with
  | entered => trivial
  | returned result => trivial
  | confirming session report summary ownerHash => exact ⟨Known.later h.1 hl, h.2.later hl⟩
  | pruningSql session report summary ownerHash durabilityError =>
    exact ⟨Known.later h.1 hl, h.2.later hl⟩
  | pruningPlain session report ownerHash durabilityError =>
    obtain ⟨hknown, summary, hv⟩ := h
    exact ⟨hknown.later hl, summary, hv.later hl⟩
  | comparing session report ownerHash durabilityError digest observed =>
    obtain ⟨⟨summary, hv⟩, hplain⟩ := h
    exact ⟨⟨summary, hv.later hl⟩, fun file hfile => hplain file (hl.plains _ _ _ hfile)⟩
  | _ => exact Known.later h hl

inductive MigrationEffect (c : Codec) (d : LogDisk) (e : Uuid) : LogDisk → Prop
  | none : MigrationEffect c d e d
  | publish : d.owners session e = Option.none →
      MigrationEffect c d e { d with owners := place d.owners session e file }
  | confirm :
      MigrationEffect c d e
        { d with owners := place d.owners session e ((d.owners session e).map confirm) }
  | pruneSql : Known d e session → InOrder (rowsOf e d.rows) ordered →
      d.owners session e = some file → file.Keeps c summary (ordered.flatMap SqlLogRow.logs) →
      summary.legacySqlFingerprint = some (hex (c.sha256 (rowEvidence c ordered))) →
      MigrationEffect c d e { d with rows := d.rows.filter fun row => row.executionId ≠ e }
  | prunePlain : d.plains session e = some plain → d.owners session e = some file →
      file.Keeps c summary plain.bytes →
      MigrationEffect c d e { d with plains := place d.plains session e Option.none }

@[simp] theorem place_same (files : Uuid → Uuid → Option α) (s e : Uuid) (file : Option α) :
    place files s e file s e = file := by
  simp [place]

theorem place_other {files : Uuid → Uuid → Option α} (h : ¬ (s' = s ∧ e' = e)) :
    place files s e file s' e' = files s' e' := by
  simp [place, h]

theorem MigrationEffect.later (h : MigrationEffect c d e d') : Later d d' := by
  have hsame : ∀ s e file, d.owners s e = some file → ∃ file', d.owners s e = some file' ∧
      file'.bytes = file.bytes ∧ (file.confirmed = true → file'.confirmed = true) :=
    fun s e file hfile => ⟨file, hfile, rfl, id⟩
  cases h with
  | none => exact ⟨hsame, fun s e file hfile => hfile, fun e => rfl⟩
  | @publish session file hnone =>
    refine ⟨?_, fun s e file hfile => hfile, fun e => rfl⟩
    intro s e' old hold
    have hne : ¬ (s = session ∧ e' = e) := by
      rintro ⟨rfl, rfl⟩
      rw [hnone] at hold
      cases hold
    exact ⟨old, (place_other hne).trans hold, rfl, id⟩
  | @confirm session =>
    refine ⟨?_, fun s e file hfile => hfile, fun e => rfl⟩
    intro s e' old hold
    by_cases heq : s = session ∧ e' = e
    · obtain ⟨rfl, rfl⟩ := heq
      exact ⟨ExecutionLog.confirm old, (place_same _ _ _ _).trans (by rw [hold]; rfl), rfl,
        fun _ => rfl⟩
    · exact ⟨old, (place_other heq).trans hold, rfl, id⟩
  | pruneSql => exact ⟨hsame, fun s e file hfile => hfile, fun e => rfl⟩
  | @prunePlain session plain file summary =>
    refine ⟨hsame, ?_, fun e => rfl⟩
    intro s e' old hold
    by_cases heq : s = session ∧ e' = e
    · obtain ⟨rfl, rfl⟩ := heq
      simp at hold
    · exact (place_other heq).symm.trans hold

theorem rowsOf_delete (rows : List SqlLogRow) (e e' : Uuid) :
    rowsOf e' (rows.filter fun row => row.executionId ≠ e) =
      if e' = e then [] else rowsOf e' rows := by
  unfold rowsOf
  rw [List.filter_filter]
  split
  · rename_i heq
    subst heq
    apply List.filter_eq_nil_iff.mpr
    intro row _
    simp
  · rename_i hne
    apply List.filter_congr
    intro row _
    simp only [ne_eq, decide_not, Bool.and_eq_left_iff_imp, decide_eq_true_eq,
      Bool.not_eq_true', decide_eq_false_iff_not]
    intro heq
    rwa [heq]

theorem SourcesKept.effect (h : SourcesKept c d₀ d) (heffect : MigrationEffect c d e d') :
    SourcesKept c d₀ d' := by
  have hr := heffect.later.retains
  cases heffect with
  | none => exact h
  | publish => exact h.retained hr rfl rfl fun e => rfl
  | confirm => exact h.retained hr rfl rfl fun e => rfl
  | @pruneSql session ordered file summary hknown horder hfile hkeeps hfp =>
    refine ⟨?_, h.plain, h.ids.sublist (List.filter_sublist.map _), h.sessions⟩
    intro e'
    rw [rowsOf_delete]
    split
    · rename_i heq
      subst heq
      right
      refine ⟨rfl, ?_⟩
      rcases h.sql e' with hsame | ⟨-, hkept⟩
      · rw [hsame] at horder
        have hsession := h.sessions e'
        rw [hknown] at hsession
        obtain ⟨⟨session', status⟩, hentry, heq⟩ := Option.map_eq_some_iff.mp hsession.symm
        obtain rfl : session' = session := heq
        exact ⟨session', status, file, summary, ordered, hentry, hfile, horder, hkeeps, hfp⟩
      · exact hkept
    · exact h.sql e'
  | @prunePlain session plain file summary hplain hfile hkeeps =>
    refine ⟨h.sql, ?_, h.ids, h.sessions⟩
    intro s e'
    by_cases heq : s = session ∧ e' = e
    · obtain ⟨rfl, rfl⟩ := heq
      right
      refine ⟨place_same _ _ _ _, ?_⟩
      rcases h.plain s e' with hsame | ⟨hnone, -⟩
      · rw [hplain] at hsame
        exact ⟨plain, file, summary, hsame.symm, hfile, hkeeps⟩
      · rw [hplain] at hnone
        cases hnone
    · have hother : place d.plains session e none s e' = d.plains s e' := place_other heq
      rcases h.plain s e' with hsame | ⟨hnone, hkept⟩
      · exact Or.inl (hother.trans hsame)
      · exact Or.inr ⟨hother.trans hnone, hkept⟩

theorem MigrationEffect.other (h : MigrationEffect c d e d') (hne : e' ≠ e) :
    rowsOf e' d'.rows = rowsOf e' d.rows ∧
      ∀ s, d'.owners s e' = d.owners s e' ∧ d'.plains s e' = d.plains s e' := by
  have hplace : ∀ {α : Type} {files : Uuid → Uuid → Option α} {session file} (s : Uuid),
      place files session e file s e' = files s e' :=
    fun s => place_other fun heq => hne heq.2
  cases h with
  | none => exact ⟨rfl, fun s => ⟨rfl, rfl⟩⟩
  | publish => exact ⟨rfl, fun s => ⟨hplace s, rfl⟩⟩
  | confirm => exact ⟨rfl, fun s => ⟨hplace s, rfl⟩⟩
  | pruneSql => exact ⟨(rowsOf_delete d.rows e e').trans (if_neg hne), fun s => ⟨rfl, rfl⟩⟩
  | prunePlain => exact ⟨rfl, fun s => ⟨rfl, hplace s⟩⟩

theorem verify_ok (h : m.verify d e session = .ok (summary, digest)) :
    Verified m.codec d session e summary digest False := by
  simp only [Migrator.verify, migration_bind_eq_ok, orFail_eq_ok, fromLog_eq_ok,
    ensure_eq_ok, exists_and_left] at h
  obtain ⟨file, hfile, found, hscan, hsealed, -, -, -, ownerHash, hhash, h⟩ := h
  cases h
  exact ⟨file, hfile, hscan, hsealed, hhash, False.elim⟩

theorem Verified.confirm (h : Verified c d session e summary digest False)
    (hknown : Known d e session) (durabilityError : Option String) :
    MigrationCall.Holds c
      { d with owners := place d.owners session e ((d.owners session e).map confirm) }
      ⟨e, .pruningSql session report summary digest durabilityError⟩ := by
  obtain ⟨file, hfile, hscan, hsealed, hhash, -⟩ := h
  refine ⟨hknown, ExecutionLog.confirm file, ?_, hscan, hsealed, hhash, fun _ => rfl⟩
  rw [hfile]
  exact place_same _ _ _ _

theorem copyPlain_ok (h : copyPlain c file staging = .ok (digest, staging')) :
    digest = c.sha256 file.bytes := by
  simp only [copyPlain, migration_bind_eq_ok] at h
  obtain ⟨staging₁, -, h⟩ := h
  cases h
  rfl

theorem MigrationCall.Holds.step_effect (hc : m.codec.RoundTrips)
    (hsha : d.NoCollision m.codec) (hids : (d.rows.map SqlLogRow.rowId).Nodup)
    {call : MigrationCall} (h : call.Holds m.codec d) (turn : MigrationTurn) (leaseHeld : Bool) :
    MigrationEffect m.codec d call.executionId (call.step m turn leaseHeld d).2 ∧
      MigrationCall.Holds m.codec (call.step m turn leaseHeld d).2
        ⟨call.executionId, (call.step m turn leaseHeld d).1⟩ := by
  obtain ⟨e, phase⟩ := call
  obtain ⟨refusal, sidecar, appends, sealing⟩ := turn
  cases refusal with
  | some text =>
    cases phase with
    | confirming session report summary ownerHash =>
      obtain ⟨hknown, file, hfile, hscan, hsealed, hhash, -⟩ := h
      exact ⟨.none, hknown, file, hfile, hscan, hsealed, hhash, fun hp => by cases hp⟩
    | _ => exact ⟨.none, trivial⟩
  | none =>
    cases phase with
    | returned result => exact ⟨.none, trivial⟩
    | confirming session report summary ownerHash =>
      obtain ⟨hknown, hv⟩ := h
      exact ⟨.confirm, hv.confirm hknown none⟩
    | entered =>
      simp only [step]
      split
      · exact ⟨.none, trivial⟩
      · rename_i session hsession
        exact ⟨.none, terminalSession_ok hsession⟩
    | waiting session =>
      simp only [step]
      split
      · exact ⟨.none, trivial⟩
      · exact ⟨.none, h⟩
    | leased session =>
      simp only [step]
      split
      · exact ⟨.none, trivial⟩
      split
      · exact ⟨.none, h⟩
      · exact ⟨.none, trivial⟩
    | staging session =>
      simp only [step]
      split
      · exact ⟨.none, h⟩
      split
      · exact ⟨.none, trivial⟩
      · exact ⟨.none, trivial⟩
      · exact ⟨.none, h⟩
    | publishing session temp =>
      simp only [step]
      split
      · exact ⟨.none, trivial⟩
      · rename_i hnone
        exact ⟨.publish (Option.not_isSome_iff_eq_none.mp hnone), h⟩
    | syncing session => exact ⟨.confirm, h⟩
    | verifying session report =>
      simp only [step]
      split
      · exact ⟨.none, trivial⟩
      · rename_i summary ownerHash hverify
        exact ⟨.none, h, verify_ok hverify⟩
    | pruningSql session report summary ownerHash durabilityError =>
      obtain ⟨hknown, hv⟩ := h
      simp only [step]
      split
      · exact ⟨.none, trivial⟩
      · rename_i source disk hprune
        have heffect : MigrationEffect m.codec d e disk := by
          obtain rfl | ⟨⟨ordered, file, horder, hfile, hkeeps, hfp⟩, rfl⟩ :=
            pruneSql_ok hc hsha hids hv hprune
          · exact .none
          · exact .pruneSql hknown horder hfile hkeeps hfp
        exact ⟨heffect, hknown.later heffect.later, summary, hv.later heffect.later⟩
    | pruningPlain session report ownerHash durabilityError =>
      obtain ⟨hknown, hv⟩ := h
      simp only [step]
      split
      · exact ⟨.none, trivial⟩
      split
      · exact ⟨.none, trivial⟩
      · rename_i file hfile _ digest _ hcopy
        refine ⟨.none, hv, ?_⟩
        intro file' hfile'
        rw [hfile] at hfile'
        rw [copyPlain_ok hcopy, Option.some.inj hfile']
    | comparing session report ownerHash durabilityError digest observed =>
      obtain ⟨⟨summary, hv⟩, hplain⟩ := h
      simp only [step]
      split
      · exact ⟨.none, trivial⟩
      · rename_i source disk hcompare
        refine ⟨?_, trivial⟩
        obtain rfl | ⟨hdurable, rfl, ⟨plain, hfile⟩, rfl⟩ := comparePlain_ok hcompare
        · exact .none
        · rw [← hplain plain hfile] at hv
          obtain ⟨file, hfile', hkeeps⟩ := hv.keeps hc hsha (.plain hfile) hdurable
          exact .prunePlain hfile hfile' hkeeps

structure LogWorld.Holds (m : Migrator) (d₀ : LogDisk) (w : LogWorld) : Prop where
  kept : SourcesKept m.codec d₀ w.toLogDisk
  calls : ∀ call ∈ w.calls, call.Holds m.codec w.toLogDisk

theorem settle_sessions (d : LogDisk) (e : Uuid) (status : ExecutionProcessStatus) (e' : Uuid) :
    ((if e' = e then (d.processes e').map fun p => (p.1, status) else d.processes e').map
      Prod.fst) = (d.processes e').map Prod.fst := by
  split
  · rw [Option.map_map]
    rfl
  · rfl

theorem LogWorld.Holds.step (hc : m.codec.RoundTrips)
    (hsha : w.NoCollision m.codec) (h : LogWorld.Holds m d₀ w)
    (event : MigrationEvent) : (w.step m event).Holds m d₀ := by
  cases event with
  | call executionId =>
    refine ⟨h.kept, ?_⟩
    intro call hcall
    rcases List.mem_append.mp hcall with hcall | hcall
    · exact h.calls call hcall
    · rw [List.mem_singleton.mp hcall]
      trivial
  | step i turn =>
    rw [LogWorld.step]
    cases hi : w.calls[i]? with
    | none => exact h
    | some call =>
      have hcall := h.calls call (List.mem_of_getElem? hi)
      obtain ⟨heffect, hholds⟩ :=
        hcall.step_effect hc hsha h.kept.ids turn (w.leaseHeld call)
      refine ⟨h.kept.effect heffect, ?_⟩
      intro other hother
      rcases List.mem_or_eq_of_mem_set hother with hother | rfl
      · exact (h.calls other hother).later heffect.later
      · exact hholds
  | crash lost =>
    refine ⟨h.kept.retained ?_ rfl rfl fun e => rfl, fun call hcall => by cases hcall⟩
    intro s e file hfile hconfirmed
    show Option.filter _ (w.owners s e) = some file
    rw [hfile, Option.filter_some, hconfirmed]
    simp
  | settle executionId status =>
    have hl : Later w.toLogDisk (w.step m (.settle executionId status)).toLogDisk :=
      ⟨fun s e file hfile => ⟨file, hfile, rfl, id⟩, fun s e file hfile => hfile,
        settle_sessions w.toLogDisk executionId status⟩
    exact ⟨h.kept.retained hl.retains rfl rfl hl.sessions,
      fun call hcall => (h.calls call hcall).later hl⟩

/-- No collision of the digest among the contents that a run has on the disk at one time. -/
def LogWorld.Collisionless (m : Migrator) (w : LogWorld) (events : List MigrationEvent) : Prop :=
  ∀ past, past <+: events → (w.run m past).NoCollision m.codec

theorem LogWorld.Collisionless.tail (h : LogWorld.Collisionless m w (event :: events)) :
    (w.step m event).Collisionless m events :=
  fun past hpast => h (event :: past) (List.cons_prefix_cons.mpr ⟨rfl, hpast⟩)

theorem LogWorld.Holds.run (hc : m.codec.RoundTrips) (h : LogWorld.Holds m d₀ w)
    (events : List MigrationEvent) (hsha : w.Collisionless m events) :
    (w.run m events).Holds m d₀ := by
  induction events generalizing w with
  | nil => exact h
  | cons event events ih => exact ih (h.step hc (hsha [] List.nil_prefix) event) hsha.tail

/-- The logs of an execution are as they were, but for an owner lost that nobody had confirmed. -/
def Untouched (d₀ d : LogDisk) (e : Uuid) : Prop :=
  rowsOf e d.rows = rowsOf e d₀.rows ∧ ∀ s, d.plains s e = d₀.plains s e ∧
    (d.owners s e = d₀.owners s e ∨ (d.owners s e = none ∧
      ∃ file, d₀.owners s e = some file ∧ file.confirmed = false))

theorem LogWorld.step_untouched (hc : m.codec.RoundTrips)
    (hsha : w.NoCollision m.codec) (h : LogWorld.Holds m d₀ w)
    (hu : Untouched d₀ w.toLogDisk e) (hcalls : ∀ call ∈ w.calls, call.executionId ≠ e)
    (event : MigrationEvent) (hevent : ∀ id, event = .call id → id ≠ e) :
    Untouched d₀ (w.step m event).toLogDisk e ∧
      ∀ call ∈ (w.step m event).calls, call.executionId ≠ e := by
  cases event with
  | call executionId =>
    refine ⟨hu, ?_⟩
    intro call hcall
    rcases List.mem_append.mp hcall with hcall | hcall
    · exact hcalls call hcall
    · rw [List.mem_singleton.mp hcall]
      exact hevent executionId rfl
  | step i turn =>
    rw [LogWorld.step]
    cases hi : w.calls[i]? with
    | none => exact ⟨hu, hcalls⟩
    | some call =>
      have hmem := List.mem_of_getElem? hi
      obtain ⟨heffect, -⟩ :=
        (h.calls call hmem).step_effect hc hsha h.kept.ids turn (w.leaseHeld call)
      obtain ⟨hrows, hfiles⟩ := heffect.other (hcalls call hmem).symm
      obtain ⟨hurows, hufiles⟩ := hu
      refine ⟨⟨hrows.trans hurows, fun s => ?_⟩, ?_⟩
      · obtain ⟨howner, hplain⟩ := hfiles s
        simp only [howner, hplain]
        exact hufiles s
      · intro other hother
        rcases List.mem_or_eq_of_mem_set hother with hother | rfl
        · exact hcalls other hother
        · exact hcalls call hmem
  | crash lost =>
    obtain ⟨hurows, hufiles⟩ := hu
    refine ⟨⟨hurows, fun s => ⟨(hufiles s).1, ?_⟩⟩, fun call hcall => by cases hcall⟩
    show Option.filter _ (w.owners s e) = _ ∨ (Option.filter _ (w.owners s e) = none ∧ _)
    rcases (hufiles s).2 with hsame | ⟨hnone, hlost⟩
    · rw [hsame]
      cases howner : d₀.owners s e with
      | none => exact Or.inl rfl
      | some file =>
        cases hconfirmed : file.confirmed with
        | true => exact Or.inl (by simp [Option.filter_some, hconfirmed])
        | false =>
          by_cases hl : (s, e) ∈ lost
          · exact Or.inr ⟨by simp [Option.filter_some, hconfirmed, hl], file, rfl, hconfirmed⟩
          · exact Or.inl (by simp [Option.filter_some, hl])
    · rw [hnone]
      exact Or.inr ⟨rfl, hlost⟩
  | settle executionId status => exact ⟨hu, hcalls⟩

theorem LogWorld.run_untouched (hc : m.codec.RoundTrips) (h : LogWorld.Holds m d₀ w)
    (hu : Untouched d₀ w.toLogDisk e) (hcalls : ∀ call ∈ w.calls, call.executionId ≠ e)
    (events : List MigrationEvent) (hsha : w.Collisionless m events) (hevents : MigrationEvent.call e ∉ events) :
    Untouched d₀ (w.run m events).toLogDisk e := by
  induction events generalizing w with
  | nil => exact hu
  | cons event events ih =>
    rw [List.mem_cons, not_or] at hevents
    have hnow := hsha [] List.nil_prefix
    obtain ⟨hu', hcalls'⟩ := LogWorld.step_untouched hc hnow h hu hcalls event (by
      rintro id rfl rfl
      exact hevents.1 rfl)
    exact ih (h.step hc hnow event) hu' hcalls' hsha.tail hevents.2

/-- Whatever calls are made, wherever they fail or the process dies, and however often they are made
again: every legacy source is as it was or in a sealed and confirmed owner, byte for byte, and the
logs of executions not migrated are untouched. -/
theorem migration_loses_nothing (m : Migrator) (hc : m.codec.RoundTrips) (w : LogWorld)
    (hids : (w.rows.map SqlLogRow.rowId).Nodup) (hidle : w.calls = [])
    (events : List MigrationEvent) (hsha : w.Collisionless m events) :
    SourcesKept m.codec w.toLogDisk (w.run m events).toLogDisk ∧
      ∀ e, MigrationEvent.call e ∉ events →
        Untouched w.toLogDisk (w.run m events).toLogDisk e := by
  have hw : LogWorld.Holds m w.toLogDisk w :=
    { kept := ⟨fun e => Or.inl rfl, fun s e => Or.inl rfl, hids, fun e => rfl⟩
      calls := by
        rw [hidle]
        intro call hcall
        cases hcall }
  refine ⟨(hw.run hc events hsha).kept, ?_⟩
  intro e hevents
  have hcalls : ∀ call ∈ w.calls, call.executionId ≠ e := by
    rw [hidle]
    intro call hcall
    cases hcall
  exact LogWorld.run_untouched hc hw ⟨rfl, fun s => ⟨rfl, Or.inl rfl⟩⟩ hcalls events hsha hevents

namespace Sample

/-- The digest of the bytes that are migrated. -/
def abcSha256 : Bytes :=
  [0xba, 0x78, 0x16, 0xbf, 0x8f, 0x01, 0xcf, 0xea, 0x41, 0x41, 0x40, 0xde, 0x5d, 0xae, 0x22, 0x23,
    0xb0, 0x03, 0x61, 0xa3, 0x96, 0x17, 0x7a, 0x9c, 0xb4, 0x10, 0xff, 0x61, 0xf2, 0x00, 0x15, 0xad]

def sha256 (bytes : Bytes) : Bytes := if bytes = [97, 98, 99] then abcSha256 else 0 :: bytes

theorem sha256_injective : Function.Injective sha256 := by
  intro a b h
  unfold sha256 at h
  split at h <;> split at h
  · rename_i ha hb
    rw [ha, hb]
  · exact absurd (List.cons.inj h).1 (by decide)
  · exact absurd (List.cons.inj h).1 (by decide)
  · exact (List.cons.inj h).2

def migrator : Migrator := ⟨{ storedCodec with sha256 }, fun _ => true, 0⟩

def legacyRow (rowId : Int) (logs : Bytes) : SqlLogRow := ⟨rowId, 1, "2025", 2, logs⟩

def legacyWorld : LogWorld where
  processes := fun e => if e = 1 then some (7, .completed) else none
  rows := [legacyRow 2 [99], legacyRow 1 [97, 98]]
  owners := fun _ _ => none
  plains := fun _ e => if e = 1 then some ⟨[97, 98, 99], ⟨0, 0, 0, none⟩⟩ else none
  calls := []

def migrationTurn (refusal : Option String) : MigrationTurn :=
  ⟨refusal, true, List.replicate 4 ⟨some (2 ^ 20), 1, []⟩, ⟨some (2 ^ 20), 1, []⟩⟩

def migrationEvents : List MigrationEvent :=
  .call 1 :: List.replicate 5 (.step 0 (migrationTurn none)) ++
    .crash [(7, 1)] :: .call 1 :: List.replicate 11 (.step 0 (migrationTurn none))

end Sample

theorem migration_loses_nothing_sample :
    let w := Sample.legacyWorld.run Sample.migrator Sample.migrationEvents
    SourcesKept Sample.migrator.codec Sample.legacyWorld.toLogDisk w.toLogDisk ∧
      ∀ e, MigrationEvent.call e ∉ Sample.migrationEvents →
        Untouched Sample.legacyWorld.toLogDisk w.toLogDisk e :=
  migration_loses_nothing Sample.migrator { storedCodec_roundTrips with } Sample.legacyWorld
    (by decide) rfl Sample.migrationEvents fun _ _ => Sample.sha256_injective.injOn

end Cdesktop.ExecutionLog
