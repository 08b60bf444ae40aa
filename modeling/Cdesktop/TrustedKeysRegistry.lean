import Cdesktop.Strokes
import Cdesktop.TrustedKeys
import Mathlib.Logic.Function.Basic

namespace Cdesktop.TrustedKeys
set_option autoImplicit true

/-- A call between its steps. `fs::write` truncates the file and then writes the text. -/
inductive Phase where
  | received
  | truncating (clients : List TrustedRelayClient) (answer : Bool)
  | writing (clients : List TrustedRelayClient) (answer : Bool)
  | answered (answer : Except TrustedKeyAuthError Bool)

/-- A call of `upsert_trusted_client` or of `remove_trusted_client`. -/
structure Call where
  op : Op
  phase : Phase

structure World where
  file : Option (List UInt8)
  calls : Nat → Option Call
  history : List Op

def World.new : World :=
  { file := none
    calls := fun _ => none
    history := [] }

inductive Event where
  | call (t : Nat) (op : Op)
  /-- The next step of a call, with or without an error of the file system. -/
  | step (t : Nat) (ok : Bool)

def World.set (w : World) (t : Nat) (op : Op) (phase : Phase) : World :=
  { w with calls := Function.update w.calls t (some ⟨op, phase⟩) }

def World.refuse (w : World) (t : Nat) (op : Op) (e : TrustedKeyAuthError) : World :=
  w.set t op (.answered (.error e))

def World.complete (w : World) (t : Nat) (op : Op) (answer : Bool) : World :=
  { w.set t op (.answered (.ok answer)) with history := w.history ++ [op] }

def overwrite (old new : List UInt8) : List UInt8 := new ++ old.drop new.length

def World.read (lib : Libraries) (w : World) (ok : Bool) :
    Except TrustedKeyAuthError (List TrustedRelayClient) :=
  if ok then readTrustedClientsFile lib w.file else .error .io

def World.receive (lib : Libraries) (w : World) (t : Nat) (op : Op) (ok : Bool) : World :=
  match op with
  | .upsert client =>
    match validateClient lib client with
    | .error e => w.refuse t op e
    | .ok () =>
      match w.read lib ok with
      | .error e => w.refuse t op e
      | .ok clients =>
        let upserted := upsertClients clients client
        w.set t op (.truncating upserted.1 upserted.2)
  | .remove clientId =>
    match w.read lib ok with
    | .error e => w.refuse t op e
    | .ok clients =>
      let kept := removeClients clients clientId
      if kept.length = clients.length then w.complete t op false
      else w.set t op (.truncating kept true)

def World.serve (lib : Libraries) (w : World) (t : Nat) (call : Call) (ok : Bool) : World :=
  match call.phase with
  | .received => w.receive lib t call.op ok
  | .truncating clients answer =>
    if ok then { w.set t call.op (.writing clients answer) with file := some [] }
    else w.refuse t call.op .io
  | .writing clients answer =>
    if ok then
      { w.complete t call.op answer with
        file := some (overwrite (w.file.getD []) (utf8 (lib.text clients))) }
    else w.refuse t call.op .io
  | .answered _ => w

def World.exec (lib : Libraries) (w : World) : Event → World
  | .call t op => if (w.calls t).isNone then w.set t op .received else w
  | .step t ok =>
    match w.calls t with
    | none => w
    | some call => w.serve lib t call ok

def World.run (lib : Libraries) (w : World) (events : List Event) : World :=
  Run.run (World.exec lib) w events

def Call.Pending (call : Call) : Prop :=
  match call.phase with
  | .truncating _ _ | .writing _ _ => True
  | .received | .answered _ => False

def World.Idle (w : World) : Prop := ∀ t call, w.calls t = some call → ¬ call.Pending

/-- The condition on a step: a call reads while no other one has still to write, it meets at most
one of the clients, and the text is written. -/
def Serial (lib : Libraries) (w : World) : Event → Prop
  | .call _ _ => True
  | .step t ok => ∀ call, w.calls t = some call →
    match call.phase with
    | .received => w.Idle ∧ ∀ clients, readTrustedClientsFile lib w.file = .ok clients →
        call.op.Fits clients
    | .writing _ _ => ok = true
    | .truncating _ _ | .answered _ => True

@[simp] theorem readToString_utf8 (s : String) : readToString (utf8 s) = some s := fromUtf8_utf8 s

theorem validateClients_eq_ok (h : ∀ client ∈ clients, validateClient lib client = .ok ()) :
    validateClients lib clients = .ok () := by
  induction clients with
  | nil => rfl
  | cons client clients ih =>
    rw [validateClients, h client List.mem_cons_self]
    exact ih fun client' hclient' => h client' (List.mem_cons_of_mem _ hclient')

variable {lib : Libraries} {w : World} {call : Call} {op : Op}

theorem readTrustedClientsFile_text (hlib : lib.Lawful)
    (h : ∀ client ∈ clients, validateClient lib client = .ok ()) :
    readTrustedClientsFile lib (some (overwrite [] (utf8 (lib.text clients)))) = .ok clients := by
  rw [overwrite, List.drop_nil, List.append_nil, readTrustedClientsFile]
  rw [readToString_utf8]
  dsimp only
  rw [if_neg (Bool.eq_false_iff.mp (hlib.notBlank clients)), hlib.roundTrip]
  dsimp only
  rw [validateClients_eq_ok h]

theorem readTrustedClientsFile_empty :
    readTrustedClientsFile lib (some []) = .ok [] := by
  have hread : readToString [] = some "" := readToString_utf8 ""
  rw [readTrustedClientsFile]
  rw [hread]
  rfl

@[simp] theorem World.set_calls_self (w : World) (t : Nat) (op : Op) (phase : Phase) :
    (w.set t op phase).calls t = some ⟨op, phase⟩ := Function.update_self ..

theorem World.set_calls_ne (h : t' ≠ t) (op : Op) (phase : Phase) :
    (w.set t op phase).calls t' = w.calls t' := Function.update_of_ne h ..

structure Prepared (lib : Libraries) (w : World) (op : Op) (clients : List TrustedRelayClient) :
    Prop where
  applied : clients = op.apply (registry w.history)
  fits : op.Fits (registry w.history)
  valid : ∀ client ∈ clients, validateClient lib client = .ok ()

def Call.Holds (lib : Libraries) (w : World) (call : Call) : Prop :=
  match call.phase with
  | .truncating clients _ => Prepared lib w call.op clients ∧
      readTrustedClientsFile lib w.file = .ok (registry w.history)
  | .writing clients _ => Prepared lib w call.op clients ∧ w.file = some []
  | .received | .answered _ => True

theorem Call.Holds.set {phase : Phase} (h : call.Holds lib w) :
    call.Holds lib (w.set t op phase) := by
  obtain ⟨op', phase'⟩ := call
  cases phase' with
  | received => trivial
  | truncating clients answer => exact ⟨⟨h.1.applied, h.1.fits, h.1.valid⟩, h.2⟩
  | writing clients answer => exact ⟨⟨h.1.applied, h.1.fits, h.1.valid⟩, h.2⟩
  | answered answer => trivial

structure Inv (lib : Libraries) (w : World) : Prop where
  fits : Run.Each Op.apply (fun clients op => op.Fits clients) [] w.history
  valid : ∀ client ∈ registry w.history, validateClient lib client = .ok ()
  single : ∀ t t' call call', w.calls t = some call → call.Pending → w.calls t' = some call' →
    call'.Pending → t = t'
  idle : w.Idle → readTrustedClientsFile lib w.file = .ok (registry w.history)
  holds : ∀ t call, w.calls t = some call → call.Holds lib w

theorem Call.Holds.of_not_pending (h : ¬ call.Pending) : call.Holds lib w := by
  obtain ⟨op, phase⟩ := call
  cases phase with
  | received => trivial
  | truncating clients answer => exact (h trivial).elim
  | writing clients answer => exact (h trivial).elim
  | answered answer => trivial

theorem Inv.new : Inv lib World.new := by
  constructor
  · trivial
  · intro client hclient
    cases hclient
  · intro t t' call call' hcall
    cases hcall
  · intro _
    rfl
  · intro t call hcall
    cases hcall

def World.Alone (w : World) (t : Nat) : Prop :=
  ∀ t' call, t' ≠ t → w.calls t' = some call → ¬ call.Pending

theorem World.Idle.alone (h : w.Idle) : w.Alone t :=
  fun t' call _ hcall => h t' call hcall

theorem Inv.alone (h : Inv lib w) (hcall : w.calls t = some call)
    (hpending : call.Pending) : w.Alone t := by
  intro t' call' ht hcall' hpending'
  exact ht (h.single t' t call' call hcall' hpending' hcall hpending)

theorem World.Alone.set (h : w.Alone t) : (w.set t op phase).Alone t := by
  intro t' call ht hcall
  rw [World.set_calls_ne ht] at hcall
  exact h t' call ht hcall

theorem Inv.of_alone (halone : w.Alone t) (hcall : w.calls t = some call)
    (hfits : Run.Each Op.apply (fun clients op => op.Fits clients) [] w.history)
    (hvalid : ∀ client ∈ registry w.history, validateClient lib client = .ok ())
    (hread : ¬ call.Pending → readTrustedClientsFile lib w.file = .ok (registry w.history))
    (hholds : call.Holds lib w) : Inv lib w := by
  have hsame : ∀ t' call', w.calls t' = some call' → call'.Pending → t' = t := by
    intro t' call' hcall' hpending
    by_contra ht
    exact halone t' call' ht hcall' hpending
  constructor
  · exact hfits
  · exact hvalid
  · intro t' t'' call' call'' hcall' hpending' hcall'' hpending''
    rw [hsame t' call' hcall' hpending', hsame t'' call'' hcall'' hpending'']
  · intro hidle
    exact hread (hidle t call hcall)
  · intro t' call' hcall'
    by_cases ht : t' = t
    · subst ht
      rw [hcall] at hcall'
      cases hcall'
      exact hholds
    · exact Call.Holds.of_not_pending (halone t' call' ht hcall')

theorem Inv.set (h : Inv lib w) (hcall : ∀ call, w.calls t = some call → ¬ call.Pending)
    (hphase : ¬ (⟨op, phase⟩ : Call).Pending) : Inv lib (w.set t op phase) := by
  have hold : ∀ t' call', (w.set t op phase).calls t' = some call' → call'.Pending →
      w.calls t' = some call' := by
    intro t' call' hcall' hpending
    by_cases ht : t' = t
    · subst ht
      rw [World.set_calls_self] at hcall'
      cases hcall'
      exact (hphase hpending).elim
    · rw [World.set_calls_ne ht] at hcall'
      exact hcall'
  constructor
  · exact h.fits
  · exact h.valid
  · intro t' t'' call' call'' hcall' hpending' hcall'' hpending''
    exact h.single t' t'' call' call'' (hold t' call' hcall' hpending') hpending'
      (hold t'' call'' hcall'' hpending'') hpending''
  · intro hidle
    apply h.idle
    intro t' call' hcall' hpending
    by_cases ht : t' = t
    · subst ht
      exact hcall call' hcall' hpending
    · exact hidle t' call' (by rw [World.set_calls_ne ht]; exact hcall') hpending
  · intro t' call' hcall'
    by_cases hpending : call'.Pending
    · exact (h.holds t' call' (hold t' call' hcall' hpending)).set
    · exact Call.Holds.of_not_pending hpending

theorem Inv.read (h : Inv lib w) (hidle : w.Idle) (hread : w.read lib ok = .ok clients) :
    readTrustedClientsFile lib w.file = .ok clients ∧ clients = registry w.history := by
  rw [World.read] at hread
  split at hread
  · have heq := h.idle hidle
    rw [hread] at heq
    exact ⟨hread, Except.ok.inj heq⟩
  · cases hread

theorem registry_concat (history : List Op) (op : Op) :
    registry (history ++ [op]) = op.apply (registry history) := by
  rw [registry, Run.run_append]
  rfl

theorem Prepared.valid_concat (h : Prepared lib w op clients) :
    ∀ client ∈ registry (w.history ++ [op]), validateClient lib client = .ok () := by
  rw [registry_concat, ← h.applied]
  exact h.valid

theorem Inv.truncating (h : Inv lib w) (hidle : w.Idle) (hclients : Prepared lib w op clients) :
    Inv lib (w.set t op (.truncating clients answer)) := by
  apply Inv.of_alone (t := t)
  · exact hidle.alone.set
  · exact World.set_calls_self ..
  · exact h.fits
  · exact h.valid
  · intro hnot
    exact (hnot trivial).elim
  · exact ⟨⟨hclients.applied, hclients.fits, hclients.valid⟩, h.idle hidle⟩

theorem Inv.writing (h : Inv lib w) (hcall : w.calls t = some ⟨op, .truncating clients answer⟩) :
    Inv lib { w.set t op (.writing clients answer) with file := some [] } := by
  obtain ⟨hclients, -⟩ := h.holds t _ hcall
  apply Inv.of_alone (t := t)
  · have hset : (w.set t op (.writing clients answer)).Alone t := (h.alone hcall trivial).set
    exact hset
  · exact World.set_calls_self ..
  · exact h.fits
  · exact h.valid
  · intro hnot
    exact (hnot trivial).elim
  · exact ⟨⟨hclients.applied, hclients.fits, hclients.valid⟩, rfl⟩

theorem Inv.written (hlib : lib.Lawful) (h : Inv lib w)
    (hcall : w.calls t = some ⟨op, .writing clients answer⟩) :
    Inv lib { w.complete t op answer with
      file := some (overwrite (w.file.getD []) (utf8 (lib.text clients))) } := by
  obtain ⟨hclients, hfile⟩ := h.holds t _ hcall
  apply Inv.of_alone (t := t)
  · exact (h.alone hcall trivial).set
  · exact World.set_calls_self ..
  · exact h.fits.concat hclients.fits
  · exact hclients.valid_concat
  · intro _
    rw [World.complete]
    dsimp only
    rw [hfile, registry_concat, ← hclients.applied]
    exact readTrustedClientsFile_text hlib hclients.valid
  · trivial

theorem Inv.removedNothing (h : Inv lib w) (hidle : w.Idle)
    (hkept : removeClients (registry w.history) clientId = registry w.history) :
    Inv lib (w.complete t (.remove clientId) false) := by
  have hsame : registry (w.history ++ [.remove clientId]) = registry w.history := by
    rw [registry_concat, Op.apply, hkept]
  apply Inv.of_alone (t := t)
  · exact hidle.alone.set
  · exact World.set_calls_self ..
  · apply h.fits.concat
    trivial
  · rw [World.complete]
    dsimp only
    rw [hsame]
    exact h.valid
  · intro _
    rw [World.complete]
    dsimp only
    rw [hsame]
    exact h.idle hidle
  · trivial

theorem Inv.receive (h : Inv lib w) (hcall : w.calls t = some ⟨op, .received⟩) (hidle : w.Idle)
    (hfits : ∀ clients, readTrustedClientsFile lib w.file = .ok clients → op.Fits clients) :
    Inv lib (w.receive lib t op ok) := by
  have hrefuse : ∀ e, Inv lib (w.refuse t op e) :=
    fun e => h.set (fun call hcall => hidle t call hcall) id
  cases op with
  | upsert client =>
    rw [World.receive]
    split
    · exact hrefuse _
    · rename_i hvalid
      split
      · exact hrefuse _
      · rename_i clients hread
        obtain ⟨hfile, heq⟩ := h.read hidle hread
        subst heq
        apply h.truncating hidle
        constructor
        · rfl
        · exact hfits _ hfile
        · intro existing hexisting
          rcases mem_upsert hexisting with rfl | hold
          · exact hvalid
          · exact h.valid existing hold
  | remove clientId =>
    rw [World.receive]
    split
    · exact hrefuse _
    · rename_i clients hread
      obtain ⟨hfile, heq⟩ := h.read hidle hread
      subst heq
      dsimp only
      split
      · rename_i hlength
        exact h.removedNothing hidle (List.filter_sublist.eq_of_length hlength)
      · apply h.truncating hidle
        constructor
        · rfl
        · trivial
        · intro existing hexisting
          exact h.valid existing (List.mem_of_mem_filter hexisting)

theorem Inv.exec (hlib : lib.Lawful) (h : Inv lib w)
    (hserial : Serial lib w event) : Inv lib (w.exec lib event) := by
  cases event with
  | call t op =>
    rw [World.exec]
    split
    · rename_i hnone
      rw [Option.isNone_iff_eq_none] at hnone
      apply h.set
      · intro call hcall
        rw [hnone] at hcall
        cases hcall
      · exact id
    · exact h
  | step t ok =>
    rw [World.exec]
    split
    · exact h
    · rename_i call hcall
      have hstep := hserial call hcall
      obtain ⟨op, phase⟩ := call
      cases phase with
      | received => exact h.receive hcall hstep.1 hstep.2
      | truncating clients answer =>
        rw [World.serve]
        dsimp only
        split
        · exact h.writing hcall
        · obtain ⟨-, hread⟩ := h.holds t _ hcall
          apply Inv.of_alone (t := t)
          · exact (h.alone hcall trivial).set
          · exact World.set_calls_self ..
          · exact h.fits
          · exact h.valid
          · intro _
            exact hread
          · trivial
      | writing clients answer =>
        rw [World.serve]
        dsimp only
        rw [if_pos hstep]
        exact h.written hlib hcall
      | answered answer => exact h

theorem Inv.run (hlib : lib.Lawful) (h : Run.Each (World.exec lib) (Serial lib) World.new events) :
    Inv lib (World.new.run lib events) :=
  Run.Each.preserves (fun _ _ h hserial => h.exec hlib hserial) Inv.new h

theorem Inv.clients {clients : List TrustedRelayClient} (h : Inv lib w)
    (hread : readTrustedClientsFile lib w.file = .ok clients) :
    clients = registry w.history ∨ clients = [] := by
  by_cases hidle : w.Idle
  · left
    rw [h.idle hidle] at hread
    exact (Except.ok.inj hread).symm
  · rw [World.Idle] at hidle
    push Not at hidle
    obtain ⟨t, ⟨op, phase⟩, hcall, hpending⟩ := hidle
    have hholds := h.holds t _ hcall
    cases phase with
    | received => exact hpending.elim
    | truncating clients answer =>
      left
      rw [hholds.2] at hread
      exact (Except.ok.inj hread).symm
    | writing clients answer =>
      right
      rw [hholds.2, readTrustedClientsFile_empty] at hread
      exact (Except.ok.inj hread).symm
    | answered answer => exact hpending.elim

theorem mem_parseKeys {key : VerifyingKey}
    (h : parseKeys lib clients = .ok keys) (hkey : key ∈ keys) :
    ∃ client ∈ clients, parsePublicKeyBase64 lib client.publicKeyB64 = .ok key := by
  induction clients generalizing keys with
  | nil =>
    cases h
    cases hkey
  | cons client clients ih =>
    rw [parseKeys] at h
    split at h
    · cases h
    · rename_i parsed hparsed
      split at h
      · cases h
      · rename_i rest hrest
        cases h
        rcases List.mem_cons.mp hkey with heq | hrest'
        · subst heq
          exact ⟨client, List.mem_cons_self, hparsed⟩
        · obtain ⟨client', hclient', hparsed'⟩ := ih hrest hrest'
          exact ⟨client', List.mem_cons_of_mem _ hclient', hparsed'⟩

theorem decode_of_parse (h : parsePublicKeyBase64 lib s = .ok key) :
    lib.decode s = some key := by
  rw [parsePublicKeyBase64] at h
  split at h
  · cases h
  · rename_i bytes hbytes
    split at h
    · cases h
      exact hbytes
    · cases h

theorem Libraries.Lawful.key_inj (hlib : lib.Lawful)
    (h : parsePublicKeyBase64 lib s = .ok key) (h' : parsePublicKeyBase64 lib s' = .ok key) :
    s = s' :=
  hlib.canonical s s' key (decode_of_parse h) (decode_of_parse h')

theorem mem_loadTrustedPublicKeys {key : VerifyingKey}
    (h : loadTrustedPublicKeys lib file = .ok keys) (hkey : key ∈ keys) :
    ∃ clients, readTrustedClientsFile lib file = .ok clients ∧
      ∃ client ∈ clients, parsePublicKeyBase64 lib client.publicKeyB64 = .ok key := by
  rw [loadTrustedPublicKeys] at h
  split at h
  · cases h
  · rename_i clients hread
    split at h
    · cases h
    · exact ⟨clients, hread, mem_parseKeys h hkey⟩

def World.Recorded (w : World) : Prop :=
  ∀ t op answer, w.calls t = some ⟨op, .answered (.ok answer)⟩ → op ∈ w.history

theorem World.Recorded.set {phase : Phase} (h : w.Recorded)
    (hphase : ∀ answer, phase ≠ .answered (.ok answer)) : (w.set t op phase).Recorded := by
  intro t' op' answer hcall
  by_cases ht : t' = t
  · subst ht
    rw [World.set_calls_self] at hcall
    cases hcall
    exact (hphase answer rfl).elim
  · rw [World.set_calls_ne ht] at hcall
    exact h t' op' answer hcall

theorem World.Recorded.refuse (h : w.Recorded) :
    (w.refuse t op e).Recorded := by
  apply h.set
  intro answer heq
  cases heq

theorem World.Recorded.complete (h : w.Recorded) :
    (w.complete t op answer).Recorded := by
  intro t' op' answer' hcall
  apply List.mem_append.mpr
  by_cases ht : t' = t
  · subst ht
    rw [World.complete, World.set_calls_self] at hcall
    cases hcall
    exact Or.inr List.mem_cons_self
  · rw [World.complete, World.set_calls_ne ht] at hcall
    exact Or.inl (h t' op' answer' hcall)

theorem World.Recorded.receive (h : w.Recorded) :
    (w.receive lib t op ok).Recorded := by
  cases op with
  | upsert client =>
    rw [World.receive]
    split
    · exact h.refuse
    · split
      · exact h.refuse
      · apply h.set
        intro answer heq
        cases heq
  | remove clientId =>
    rw [World.receive]
    split
    · exact h.refuse
    · dsimp only
      split
      · exact h.complete
      · apply h.set
        intro answer heq
        cases heq

theorem World.Recorded.exec (h : w.Recorded) (event : Event) :
    (w.exec lib event).Recorded := by
  cases event with
  | call t op =>
    rw [World.exec]
    split
    · apply h.set
      intro answer heq
      cases heq
    · exact h
  | step t ok =>
    rw [World.exec]
    split
    · exact h
    · rename_i call hcall
      obtain ⟨op, phase⟩ := call
      cases phase with
      | received => exact h.receive
      | truncating clients answer =>
        rw [World.serve]
        dsimp only
        split
        · have hset : (w.set t op (.writing clients answer)).Recorded := by
            apply h.set
            intro answer heq
            cases heq
          exact hset
        · exact h.refuse
      | writing clients answer =>
        rw [World.serve]
        dsimp only
        split
        · have hdone : (w.complete t op answer).Recorded := h.complete
          exact hdone
        · exact h.refuse
      | answered answer => exact h

theorem World.run_recorded (lib : Libraries) (events : List Event) :
    (World.new.run lib events).Recorded := by
  apply Run.preserves (P := World.Recorded)
  · intro w event h
    exact h.exec event
  · intro t op answer hcall
    cases hcall

structure Sound (lib : Libraries) (w : World) : Prop where
  distinct : ∀ clients, readTrustedClientsFile lib w.file = .ok clients → Distinct clients
  recorded : w.Recorded
  kept : w.Idle → readTrustedClientsFile lib w.file = .ok (registry w.history)
  /-- The key that a removed client last had is not trusted, unless it is upserted again. -/
  revoked : ∀ client before between after,
    w.history = before ++ .upsert client :: (between ++ .remove client.clientId :: after) →
    (∀ op ∈ between, op.upserts client.publicKeyB64 = false) →
    (∀ op ∈ after, op.upserts client.publicKeyB64 = false) →
    ∀ keys, loadTrustedPublicKeys lib w.file = .ok keys →
      ∀ key, parsePublicKeyBase64 lib client.publicKeyB64 = .ok key → key ∉ keys

theorem Inv.sound (hlib : lib.Lawful) (h : Inv lib w) (hrecorded : w.Recorded) : Sound lib w := by
  constructor
  · intro clients hread
    rcases h.clients hread with heq | heq
    · rw [heq]
      exact registry_distinct h.fits
    · rw [heq]
      exact ⟨List.nodup_nil, List.nodup_nil⟩
  · exact hrecorded
  · exact h.idle
  · intro client before between after hhistory hbetween hafter keys hload key hkey hmem
    obtain ⟨clients, hread, existing, hexisting, hparsed⟩ := mem_loadTrustedPublicKeys hload hmem
    have hsame := hlib.key_inj hparsed hkey
    rcases h.clients hread with heq | heq
    · subst heq
      rw [hhistory] at hexisting
      exact removed_key (hhistory ▸ h.fits) hbetween hafter existing hexisting hsame
    · subst heq
      cases hexisting

def alone (t : Nat) (op : Op) : List Event :=
  [.call t op, .step t true, .step t true, .step t true]

theorem World.exec_call (h : w.calls t = none) (op : Op) :
    w.exec lib (.call t op) = w.set t op .received := by
  rw [World.exec, if_pos (by rw [h]; rfl)]

theorem World.exec_step (h : w.calls t = some call) (ok : Bool) :
    w.exec lib (.step t ok) = w.serve lib t call ok := by
  rw [World.exec, h]

structure Done (lib : Libraries) (w w' : World) (t : Nat) (op : Op)
    (clients : List TrustedRelayClient) : Prop where
  read : readTrustedClientsFile lib w'.file = .ok (op.apply clients)
  history : w'.history = w.history ++ [op]
  own : ∃ answer, w'.calls t = some ⟨op, .answered (.ok answer)⟩
  others : ∀ t', t' ≠ t → w'.calls t' = w.calls t'

theorem done_of_truncating {w' : World} (hlib : lib.Lawful)
    (hw' : w' = (w.set t op .received).set t op (.truncating (op.apply clients) answer))
    (hvalid : ∀ client ∈ op.apply clients, validateClient lib client = .ok ()) :
    Done lib w (w'.run lib [.step t true, .step t true]) t op clients := by
  have hwriting : w'.exec lib (.step t true) =
      { w'.set t op (.writing (op.apply clients) answer) with file := some [] } := by
    rw [World.exec_step (by rw [hw']; exact World.set_calls_self ..)]
    rfl
  have hdone : (w'.exec lib (.step t true)).exec lib (.step t true) =
      { (w'.exec lib (.step t true)).complete t op answer with
        file := some (overwrite [] (utf8 (lib.text (op.apply clients)))) } := by
    have hcall : ({ w'.set t op (.writing (op.apply clients) answer) with file := some [] } :
        World).calls t = some ⟨op, .writing (op.apply clients) answer⟩ := World.set_calls_self ..
    rw [hwriting, World.exec_step hcall]
    rfl
  rw [World.run, Run.run_cons, Run.run_cons, Run.run_nil, hdone, hwriting]
  constructor
  · exact readTrustedClientsFile_text hlib hvalid
  · rw [hw']
    rfl
  · exact ⟨answer, World.set_calls_self ..⟩
  · intro t' ht
    rw [hw']
    simp [World.complete, World.set, ht]

theorem run_alone (hlib : lib.Lawful) (hnone : w.calls t = none)
    (hread : readTrustedClientsFile lib w.file = .ok clients)
    (hvalid : ∀ client ∈ clients, validateClient lib client = .ok ())
    (hop : ∀ client, op = .upsert client → validateClient lib client = .ok ()) :
    Done lib w (w.run lib (alone t op)) t op clients := by
  rw [World.run, alone, Run.run_cons, Run.run_cons, World.exec_call hnone,
    World.exec_step (World.set_calls_self ..)]
  have hok : (w.set t op .received).read lib true = .ok clients := hread
  cases op with
  | upsert client =>
    apply done_of_truncating hlib
    · rw [World.serve]
      dsimp only
      rw [World.receive]
      dsimp only
      rw [hop client rfl]
      dsimp only
      rw [hok]
      rfl
    · intro existing hexisting
      rcases mem_upsert hexisting with heq | hold
      · rw [heq]
        exact hop client rfl
      · exact hvalid existing hold
  | remove clientId =>
    by_cases hkept : (removeClients clients clientId).length = clients.length
    · have hsame : removeClients clients clientId = clients :=
        List.filter_sublist.eq_of_length hkept
      let done := (w.set t (.remove clientId) .received).complete t (.remove clientId) false
      have hdone : (w.set t (.remove clientId) .received).serve lib t
          ⟨.remove clientId, .received⟩ true = done := by
        rw [World.serve]
        dsimp only
        rw [World.receive]
        dsimp only
        rw [hok]
        dsimp only
        rw [if_pos hkept]
      have hcall : done.calls t = some ⟨.remove clientId, .answered (.ok false)⟩ :=
        World.set_calls_self ..
      have hstay : done.exec lib (.step t true) = done := by
        rw [World.exec_step hcall]
        rfl
      rw [hdone, Run.run_cons, hstay, Run.run_cons, hstay, Run.run_nil]
      constructor
      · rw [Op.apply, hsame]
        exact hread
      · rfl
      · exact ⟨false, hcall⟩
      · intro t' ht
        simp [done, World.complete, World.set, ht]
    · apply done_of_truncating hlib
      · rw [World.serve]
        dsimp only
        rw [World.receive]
        dsimp only
        rw [hok]
        dsimp only
        rw [if_neg hkept]
        rfl
      · intro existing hexisting
        exact hvalid existing (List.mem_of_mem_filter hexisting)

theorem World.receive_phase :
    ∃ call, (w.receive lib t op ok).calls t = some call ∧ call.phase ≠ .received := by
  cases op with
  | upsert client =>
    rw [World.receive]
    split
    · exact ⟨_, World.set_calls_self .., nofun⟩
    · split
      · exact ⟨_, World.set_calls_self .., nofun⟩
      · exact ⟨_, World.set_calls_self .., nofun⟩
  | remove clientId =>
    rw [World.receive]
    split
    · exact ⟨_, World.set_calls_self .., nofun⟩
    · dsimp only
      split
      · exact ⟨_, World.set_calls_self .., nofun⟩
      · exact ⟨_, World.set_calls_self .., nofun⟩

theorem World.step_phase (lib : Libraries) (ok : Bool) (hcall : w.calls t = some call) :
    ∃ call', (w.exec lib (.step t ok)).calls t = some call' ∧ call'.phase ≠ .received := by
  rw [World.exec_step hcall]
  obtain ⟨op, phase⟩ := call
  cases phase with
  | received => exact World.receive_phase
  | truncating clients answer =>
    rw [World.serve]
    dsimp only
    split
    · exact ⟨_, World.set_calls_self .., nofun⟩
    · exact ⟨_, World.set_calls_self .., nofun⟩
  | writing clients answer =>
    rw [World.serve]
    dsimp only
    split
    · exact ⟨_, World.set_calls_self .., nofun⟩
    · exact ⟨_, World.set_calls_self .., nofun⟩
  | answered answer => exact ⟨_, hcall, nofun⟩

theorem Serial.of_phase (hcall : w.calls t = some call)
    (hphase : call.phase ≠ .received) : Serial lib w (.step t true) := by
  intro call' hcall'
  rw [hcall] at hcall'
  cases hcall'
  obtain ⟨op, phase⟩ := call
  cases phase with
  | received => exact (hphase rfl).elim
  | truncating clients answer => trivial
  | writing clients answer => rfl
  | answered answer => trivial

theorem each_alone (hidle : w.Idle) (hnone : w.calls t = none)
    (hfits : ∀ clients, readTrustedClientsFile lib w.file = .ok clients → op.Fits clients) :
    Run.Each (World.exec lib) (Serial lib) w (alone t op) := by
  have hcall : (w.exec lib (.call t op)).calls t = some ⟨op, .received⟩ := by
    rw [World.exec_call hnone]
    exact World.set_calls_self ..
  obtain ⟨call₁, hcall₁, hphase₁⟩ := World.step_phase lib true hcall
  obtain ⟨call₂, hcall₂, hphase₂⟩ := World.step_phase lib true hcall₁
  constructor
  · trivial
  · constructor
    · intro call hcall'
      rw [hcall] at hcall'
      cases hcall'
      rw [World.exec_call hnone]
      constructor
      · intro t' call' hcall'
        by_cases ht : t' = t
        · subst ht
          rw [World.set_calls_self] at hcall'
          cases hcall'
          exact id
        · rw [World.set_calls_ne ht] at hcall'
          exact hidle t' call' hcall'
      · exact hfits
    · exact ⟨Serial.of_phase hcall₁ hphase₁, Serial.of_phase hcall₂ hphase₂, trivial⟩

def sequence : Nat → List Op → List Event
  | _, [] => []
  | t, op :: ops => alone t op ++ sequence (t + 1) ops

structure Quiet (lib : Libraries) (w : World) (t : Nat) (clients : List TrustedRelayClient) :
    Prop where
  read : readTrustedClientsFile lib w.file = .ok clients
  valid : ∀ client ∈ clients, validateClient lib client = .ok ()
  idle : w.Idle
  fresh : ∀ t', t ≤ t' → w.calls t' = none

theorem Quiet.new : Quiet lib World.new 0 [] := by
  constructor
  · rfl
  · intro client hclient
    cases hclient
  · intro t call hcall
    cases hcall
  · intro t _
    rfl

def Op.Valid (lib : Libraries) (op : Op) : Prop :=
  ∀ client, op = .upsert client → validateClient lib client = .ok ()

theorem Quiet.alone (hlib : lib.Lawful) (h : Quiet lib w t clients) (hop : op.Valid lib) :
    Quiet lib (w.run lib (alone t op)) (t + 1) (op.apply clients) := by
  have hdone := run_alone hlib (h.fresh t (Nat.le_refl t)) h.read h.valid hop
  constructor
  · exact hdone.read
  · intro existing hexisting
    cases op with
    | upsert client =>
      rcases mem_upsert hexisting with heq | hold
      · rw [heq]
        exact hop client rfl
      · exact h.valid existing hold
    | remove clientId => exact h.valid existing (List.mem_of_mem_filter hexisting)
  · intro t' call hcall
    by_cases ht : t' = t
    · subst ht
      obtain ⟨answer, hown⟩ := hdone.own
      rw [hown] at hcall
      cases hcall
      exact id
    · rw [hdone.others t' ht] at hcall
      exact h.idle t' call hcall
  · intro t' ht'
    rw [hdone.others t' (Nat.ne_of_gt ht')]
    exact h.fresh t' (Nat.le_of_succ_le ht')

theorem Quiet.sequence (hlib : lib.Lawful) (h : Quiet lib w t clients)
    (hops : ∀ op ∈ ops, op.Valid lib) :
    Quiet lib (w.run lib (sequence t ops)) (t + ops.length) (Run.run Op.apply clients ops) := by
  induction ops generalizing w t clients with
  | nil => exact h
  | cons op ops ih =>
    rw [TrustedKeys.sequence, World.run, Run.run_append, Run.run_cons, List.length_cons,
      Nat.add_comm ops.length, ← Nat.add_assoc]
    exact ih (h.alone hlib (hops op List.mem_cons_self))
      fun op' hop' => hops op' (List.mem_cons_of_mem _ hop')

theorem Quiet.each_sequence (hlib : lib.Lawful)
    (h : Quiet lib w t clients) (hops : ∀ op ∈ ops, op.Valid lib)
    (hfits : Run.Each Op.apply (fun clients op => op.Fits clients) clients ops) :
    Run.Each (World.exec lib) (Serial lib) w (TrustedKeys.sequence t ops) := by
  induction ops generalizing w t clients with
  | nil => trivial
  | cons op ops ih =>
    rw [TrustedKeys.sequence]
    apply Run.Each.trans
    · apply each_alone h.idle (h.fresh t (Nat.le_refl t))
      intro clients' hread
      rw [h.read] at hread
      cases hread
      exact hfits.1
    · exact ih (h.alone hlib (hops op List.mem_cons_self))
        (fun op' hop' => hops op' (List.mem_cons_of_mem _ hop')) hfits.2

instance (op : Op) (clients : List TrustedRelayClient) : Decidable (op.Fits clients) :=
  match op with
  | .upsert client => inferInstanceAs (Decidable (∀ a ∈ clients, ∀ b ∈ clients,
      client.matches a = true → client.matches b = true → a = b))
  | .remove _ => inferInstanceAs (Decidable True)

def key1 : String := "WGZmZmZmZmZmZmZmZmZmZmZmZmZmZmZmZmZmZmZmZmY="

def key2 : String := "11qYAYKxCrfVS/7TyWQHOg7hcvPapiMlrwIaaPcHURo="

def bytes1 : List UInt8 := 0x58 :: List.replicate 31 0x66

def bytes2 : List UInt8 :=
  [0xd7, 0x5a, 0x98, 0x01, 0x82, 0xb1, 0x0a, 0xb7, 0xd5, 0x4b, 0xfe, 0xd3, 0xc9, 0x64, 0x07, 0x3a,
    0x0e, 0xe1, 0x72, 0xf3, 0xda, 0xa6, 0x23, 0x25, 0xaf, 0x02, 0x1a, 0x68, 0xf7, 0x07, 0x51, 0x1a]

def phone : TrustedRelayClient := ⟨1, "Phone", "Safari", "iOS", "mobile", key1⟩

def laptop : TrustedRelayClient := ⟨2, "Laptop", "Firefox", "Linux", "desktop", key2⟩

def phone' : TrustedRelayClient := { phone with publicKeyB64 := key2 }

instance : Encodable TrustedRelayClient :=
  Encodable.ofLeftInverse
    (fun client => ((client.clientId : Nat), client.clientName, client.clientBrowser,
      client.clientOs, client.clientDevice, client.publicKeyB64))
    (fun fields => ⟨fields.1, fields.2.1, fields.2.2.1, fields.2.2.2.1, fields.2.2.2.2.1,
      fields.2.2.2.2.2⟩)
    fun _ => rfl

def member (name value : String) : String :=
  "      \"" ++ name ++ "\": \"" ++ value ++ "\""

def object (client : TrustedRelayClient) : String :=
  "    \x7b\n" ++ ",\n".intercalate
    [member "client_id" ("00000000-0000-0000-0000-00000000000" ++ toString client.clientId),
      member "client_name" client.clientName, member "client_browser" client.clientBrowser,
      member "client_os" client.clientOs, member "client_device" client.clientDevice,
      member "public_key_b64" client.publicKeyB64] ++ "\n    \x7d"

def members (clients : List TrustedRelayClient) : String :=
  "\n  \"clients\": [\n" ++ ",\n".intercalate (clients.map object) ++ "\n  ]\n"

def json (clients : List TrustedRelayClient) : String := "\x7b" ++ members clients ++ "\x7d"

def texts : List (List TrustedRelayClient × String) :=
  [[phone], [phone, laptop], [phone', laptop], [laptop]].map fun clients => (clients, json clients)

def sampleLibraries : Libraries :=
  { decode := fun s => if s = key1 then some bytes1 else if s = key2 then some bytes2 else none
    isKey := fun bytes => bytes = bytes1 ∨ bytes = bytes2
    toStringPretty := Strokes.text texts
    fromStr := fun s => (Strokes.read texts (String.ofList s.toList.dropLast)).elim
      (.error "expected value at line 1 column 1") .ok }

theorem json_toList (clients : List TrustedRelayClient) :
    ∃ rest, (json clients).toList = '\x7b' :: rest := by
  have hbrace : "\x7b".toList = ['\x7b'] := rfl
  rw [json, String.toList_append, String.toList_append, hbrace]
  exact ⟨_, rfl⟩

theorem texts_good : Strokes.Good texts := by
  constructor
  · decide +kernel
  · intro entry hentry
    obtain ⟨clients, -, heq⟩ := List.mem_map.mp hentry
    obtain ⟨rest, hlist⟩ := json_toList clients
    rw [← heq, hlist]
    exact fun hhead => absurd (Option.some.inj hhead) (by decide)

theorem isBlank_eq_false {s : String} {c : Char} (h : c ∈ s.toList) (hc : isWhiteSpace c = false) :
    isBlank s = false := by
  rw [isBlank, List.all_eq_false]
  refine ⟨c, h, ?_⟩
  rw [hc]
  decide

theorem text_not_blank (clients : List TrustedRelayClient) :
    ∃ c ∈ (Strokes.text texts clients).toList, isWhiteSpace c = false := by
  apply Strokes.text_cases (P := fun s => ∃ c ∈ s.toList, isWhiteSpace c = false)
  · intro entry hentry
    obtain ⟨clients', -, heq⟩ := List.mem_map.mp hentry
    obtain ⟨rest, hlist⟩ := json_toList clients'
    refine ⟨'\x7b', ?_, by decide⟩
    rw [← heq, hlist]
    exact List.mem_cons_self
  · intro n
    refine ⟨'!', ?_, by decide⟩
    rw [Strokes.toList_strokes]
    exact List.mem_cons_self

theorem sampleLibraries_lawful : sampleLibraries.Lawful := by
  constructor
  · intro clients
    have hnewline : "\n".toList = ['\n'] := rfl
    rw [Libraries.text, sampleLibraries]
    dsimp only
    rw [String.toList_append, hnewline, List.dropLast_concat, String.ofList_toList,
      Strokes.read_text texts_good clients]
    rfl
  · intro clients
    obtain ⟨c, hmem, hc⟩ := text_not_blank clients
    apply isBlank_eq_false _ hc
    rw [Libraries.text, String.toList_append]
    exact List.mem_append_left _ hmem
  · intro s s' bytes h h'
    have hne : bytes1 ≠ bytes2 := by decide
    simp only [sampleLibraries] at h h'
    split at h <;> split at h' <;> simp_all

theorem valid_of_mem (h : op ∈ [Op.upsert phone, .upsert laptop, .upsert phone', .remove 1]) :
    op.Valid sampleLibraries := by
  intro client heq
  subst heq
  have hall : ∀ client ∈ [phone, laptop, phone'], validateClient sampleLibraries client = .ok () := by
    decide +kernel
  exact hall client (by simpa using h)

/-- Where the calls that write follow one another and each meets one client at most, the registry
keeps its promises. -/
theorem registry_sound (lib : Libraries) (events : List Event) (hlib : lib.Lawful)
    (h : Run.Each (World.exec lib) (Serial lib) World.new events) :
    Sound lib (World.new.run lib events) :=
  (Inv.run hlib h).sound hlib (World.run_recorded lib events)

theorem registry_sound_sample : Sound sampleLibraries (World.new.run sampleLibraries
    (sequence 0 [.upsert phone, .upsert laptop, .remove 1])) := by
  apply registry_sound
  · exact sampleLibraries_lawful
  · apply Quiet.new.each_sequence sampleLibraries_lawful
    · intro op hop
      apply valid_of_mem
      simp only [List.mem_cons, List.not_mem_nil, or_false] at hop ⊢
      tauto
    · exact ⟨by decide, by decide, by decide, trivial⟩

def together : List Event :=
  [.call 0 (.upsert phone), .call 1 (.upsert laptop), .step 0 true, .step 1 true, .step 0 true,
    .step 0 true, .step 1 true, .step 1 true]

/-- A client that comes back with the key of another one: both have it, and the removal of one
leaves the key trusted. And of two pairings at the same time the first is lost. -/
theorem registry_unsound :
    readTrustedClientsFile sampleLibraries (World.new.run sampleLibraries
        (sequence 0 [.upsert phone, .upsert laptop, .upsert phone'])).file = .ok [phone', laptop] ∧
      loadTrustedPublicKeys sampleLibraries (World.new.run sampleLibraries
        (sequence 0 [.upsert phone, .upsert laptop, .upsert phone', .remove 1])).file =
        .ok [bytes2] ∧
      (World.new.run sampleLibraries together).history = [.upsert phone, .upsert laptop] ∧
      readTrustedClientsFile sampleLibraries (World.new.run sampleLibraries together).file =
        .ok [laptop] := by
  have hquiet : ∀ ops : List Op,
      (∀ op ∈ ops, op ∈ [Op.upsert phone, .upsert laptop, .upsert phone', .remove 1]) →
      readTrustedClientsFile sampleLibraries (World.new.run sampleLibraries (sequence 0 ops)).file =
        .ok (registry ops) := fun ops hops =>
    (Quiet.new.sequence sampleLibraries_lawful fun op hop => valid_of_mem (hops op hop)).read
  constructor
  · rw [hquiet _ (by decide)]
    decide
  · constructor
    · rw [loadTrustedPublicKeys, hquiet _ (by decide)]
      decide +kernel
    · constructor
      · decide +kernel
      · have hfile : (World.new.run sampleLibraries together).file =
            some (overwrite [] (utf8 (sampleLibraries.text [laptop]))) := rfl
        rw [hfile]
        apply readTrustedClientsFile_text sampleLibraries_lawful
        intro client hclient
        have hop : Op.Valid sampleLibraries (.upsert client) := valid_of_mem (by simp_all)
        exact hop client rfl

end Cdesktop.TrustedKeys
