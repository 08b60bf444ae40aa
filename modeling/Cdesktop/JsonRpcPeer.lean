import Cdesktop.EntryMap
import Cdesktop.Run

/-! The peer that the Codex app server is asked through: requests wait for responses by id. -/

namespace Cdesktop.JsonRpcPeer
set_option autoImplicit true

inductive RequestId where
  | string (id : String)
  | integer (id : Int)
deriving DecidableEq

structure JSONRPCError where
  id : RequestId
  message : String

inductive PendingResponse (Value : Type) where
  | result (value : Value)
  | error (error : JSONRPCError)
  | shutdown

inductive Channel (Value : Type) where
  | open
  | sent (response : PendingResponse Value)
  | dropped

inductive Stage (α : Type) where
  | sending
  | awaiting
  | returned (result : Except String α)
  | abandoned

def Stage.awaits : Stage α → Bool
  | .awaiting => true
  | _ => false

def Stage.live : Stage α → Bool
  | .sending | .awaiting => true
  | _ => false

structure Call (Value α : Type) where
  id : RequestId
  label : String
  stage : Stage α
  channel : Channel Value

inductive Reader (Value : Type) where
  | reading
  | resolving (id : RequestId) (response : PendingResponse Value)
  | ending
  | ended

/-- What the reader comes to, with what the callback for it returns. -/
inductive ReadResult (Value : Type) where
  | cancelled
  | eof
  | failed
  | empty
  | response (id : RequestId) (result : Value) (ok : Bool)
  | error (error : JSONRPCError) (ok : Bool)
  | request (ok : Bool)
  | notification (finished : Except Unit Bool)
  | notJson (ok : Bool)

structure Peer (Value α : Type) where
  pending : List (RequestId × Nat)
  /-- The request calls, in the order in which they registered. -/
  calls : List (Call Value α)
  reader : Reader Value

variable {Value α : Type}

def Reader.read : ReadResult Value → Reader Value
  | .cancelled | .eof | .failed => .ending
  | .empty => .reading
  | .response id result ok => if ok then .resolving id (.result result) else .ending
  | .error error ok => if ok then .resolving error.id (.error error) else .ending
  | .request ok | .notJson ok => if ok then .reading else .ending
  | .notification (.ok true) | .notification (.error _) => .ending
  | .notification (.ok false) => .reading

def awaitResponse (decode : Value → Except String α) (label : String) :
    Option (PendingResponse Value) → Except String α
  | some (.result value) =>
    match decode value with
    | .ok result => .ok result
    | .error err => .error ("failed to decode " ++ label ++ " response: " ++ err)
  | some (.error error) => .error (label ++ " request failed: " ++ error.message)
  | some .shutdown => .error ("server was shutdown while waiting for " ++ label ++ " response")
  | none => .error (label ++ " request was dropped")

namespace Call

def put (channel : Channel Value) (call : Call Value α) : Call Value α := { call with channel }

/-- The sending ends, with an error or without. -/
def sent (result : Except String Unit) (call : Call Value α) : Call Value α :=
  match call.stage with
  | .sending =>
    match result with
    | .ok _ => { call with stage := .awaiting }
    | .error err => { call with stage := .returned (.error err) }
  | _ => call

def cancelled (call : Call Value α) : Call Value α :=
  match call.stage with
  | .awaiting => { call with stage := .returned (.error (call.label ++ " request cancelled")) }
  | _ => call

def received (decode : Value → Except String α) (call : Call Value α) : Call Value α :=
  match call.stage with
  | .awaiting =>
    match call.channel with
    | .open => call
    | .sent response =>
      { call with stage := .returned (awaitResponse decode call.label (some response)) }
    | .dropped => { call with stage := .returned (awaitResponse decode call.label none) }
  | _ => call

def abandon (call : Call Value α) : Call Value α :=
  match call.stage with
  | .sending | .awaiting => { call with stage := .abandoned }
  | _ => call

def Waits (call : Call Value α) : Prop := call.stage.awaits = true ∧ call.channel = .open

end Call

def lookup (pending : List (RequestId × Nat)) (id : RequestId) : Option Nat :=
  (pending.find? (·.1 = id)).map (·.2)

def remove (pending : List (RequestId × Nat)) (id : RequestId) : List (RequestId × Nat) :=
  pending.filter (·.1 ≠ id)

namespace Peer

/-- `request` as far as its waiter is in the map: the waiter that was there is dropped. -/
def register (s : Peer Value α) (id : RequestId) (label : String) : Peer Value α :=
  let calls := match lookup s.pending id with
    | some old => s.calls.modify old (Call.put .dropped)
    | none => s.calls
  { s with
    pending := (id, s.calls.length) :: remove s.pending id
    calls := calls ++ [⟨id, label, .sending, .open⟩] }

def resolve (s : Peer Value α) (id : RequestId) (response : PendingResponse Value) :
    Peer Value α :=
  match lookup s.pending id with
  | some waiter =>
    { s with
      pending := remove s.pending id
      calls := s.calls.modify waiter (Call.put (.sent response)) }
  | none => s

def shutdown (s : Peer Value α) : Peer Value α :=
  { s with
    pending := []
    calls := s.pending.foldl
      (fun calls entry => calls.modify entry.2 (Call.put (.sent .shutdown))) s.calls }

def new : Peer Value α := ⟨[], [], .reading⟩

end Peer

inductive Event (Value : Type) where
  | register (id : RequestId) (label : String)
  | sent (call : Nat) (result : Except String Unit)
  | cancelled (call : Nat)
  | received (call : Nat)
  | abandoned (call : Nat)
  | read (result : ReadResult Value)
  /-- The reader goes on after its callback, or after its loop. -/
  | reader

section
variable (decode : Value → Except String α)

def Peer.step (s : Peer Value α) : Event Value → Peer Value α
  | .register id label => s.register id label
  | .sent call result => { s with calls := s.calls.modify call (Call.sent result) }
  | .cancelled call => { s with calls := s.calls.modify call Call.cancelled }
  | .received call => { s with calls := s.calls.modify call (Call.received decode) }
  | .abandoned call => { s with calls := s.calls.modify call Call.abandon }
  | .read result => if s.reader matches .reading then { s with reader := .read result } else s
  | .reader =>
    match s.reader with
    | .resolving id response => { s.resolve id response with reader := .reading }
    | .ending => { s.shutdown with reader := .ended }
    | .reading | .ended => s

/-- A channel changes at most once, and a response only reaches the waiter that is registered under
its id. -/
def Resolves (s s' : Peer Value α) : Prop :=
  ∀ k c c', s.calls[k]? = some c → s'.calls[k]? = some c' → c'.channel ≠ c.channel →
    c.channel = .open ∧ (c'.channel = .dropped ∨ lookup s.pending c.id = some k ∧
      (c'.channel = .sent .shutdown ∧ s.reader = .ending ∨
        ∃ response, c'.channel = .sent response ∧ s.reader = .resolving c.id response))

def Settled (s : Peer Value α) : Prop := s.pending = [] ∧ ∀ c ∈ s.calls, ¬c.Waits

def Answered (events : List (Event Value)) : Prop :=
  ∀ before, before <+: events →
    let s := Run.run (Peer.step decode) .new before
    (∀ event, Resolves s (s.step decode event)) ∧ (s.reader = .ended → Settled s)

end

def InTime (s : Peer Value α) : Event Value → Prop
  | .register .. => s.reader ≠ .ended
  | _ => True

section
variable {s : Peer Value α} {pending : List (RequestId × Nat)} {id id' : RequestId} {k : Nat}

structure Inv (s : Peer Value α) : Prop where
  keys : (s.pending.map (·.1)).Nodup
  waiters : ∀ id k, (id, k) ∈ s.pending →
    ∃ c, s.calls[k]? = some c ∧ c.id = id ∧ c.channel = .open
  waits : ∀ k c, s.calls[k]? = some c → c.stage.live = true → c.channel = .open →
    (c.id, k) ∈ s.pending

theorem lookup_eq_some (hkeys : (pending.map (·.1)).Nodup) :
    lookup pending id = some k ↔ (id, k) ∈ pending := by
  rw [lookup, EntryMap.find?_eq_lookup, EntryMap.lookup_eq_some hkeys]

theorem mem_remove : (id', k) ∈ remove pending id ↔ (id', k) ∈ pending ∧ id' ≠ id := by
  rw [remove, List.mem_filter, decide_eq_true_iff]

theorem remove_keys (hkeys : (pending.map (·.1)).Nodup) :
    ((remove pending id).map (·.1)).Nodup :=
  hkeys.sublist (List.filter_sublist.map _)

theorem modify_get {f : β → β} {l : List β} (h : l[k]? = some c) (i : Nat) :
    (l.modify i f)[k]? = some (if i = k then f c else c) := by
  rw [List.getElem?_modify, h]
  rfl

theorem modify_some {f : β → β} {l : List β} (h : (l.modify i f)[k]? = some c') :
    ∃ c, l[k]? = some c ∧ c' = if i = k then f c else c := by
  have hlt := (List.getElem?_eq_some_iff.1 h).1
  rw [List.length_modify] at hlt
  have hget := List.getElem?_eq_getElem hlt
  rw [modify_get hget] at h
  exact ⟨_, hget, (Option.some.inj h).symm⟩

structure Call.Keeps (f : Call Value α → Call Value α) : Prop where
  id : ∀ c, (f c).id = c.id
  channel : ∀ c, (f c).channel = c.channel
  live : ∀ c, (f c).stage.live = true → c.stage.live = true

variable {f : Call Value α → Call Value α}

theorem Call.Keeps.of_cases
    (h : ∀ c, f c = c ∨ c.stage.live = true ∧ ∃ stage, f c = { c with stage }) : Call.Keeps f := by
  refine ⟨fun c => ?_, fun c => ?_, fun c hlive => ?_⟩
  all_goals obtain heq | ⟨hc, stage, heq⟩ := h c
  · rw [heq]
  · rw [heq]
  · rw [heq]
  · rw [heq]
  · rwa [heq] at hlive
  · exact hc

theorem Call.sent_keeps (result : Except String Unit) :
    Call.Keeps (Call.sent result : Call Value α → Call Value α) := by
  apply Call.Keeps.of_cases
  rintro ⟨id, label, stage, channel⟩
  cases stage with
  | sending => cases result <;> exact .inr ⟨rfl, _, rfl⟩
  | _ => exact .inl rfl

theorem Call.cancelled_keeps : Call.Keeps (Call.cancelled : Call Value α → Call Value α) := by
  apply Call.Keeps.of_cases
  rintro ⟨id, label, stage, channel⟩
  cases stage with
  | awaiting => exact .inr ⟨rfl, _, rfl⟩
  | _ => exact .inl rfl

theorem Call.received_keeps (decode : Value → Except String α) :
    Call.Keeps (Call.received decode) := by
  apply Call.Keeps.of_cases
  rintro ⟨id, label, stage, channel⟩
  cases stage with
  | awaiting =>
    cases channel with
    | «open» => exact .inl rfl
    | sent response => exact .inr ⟨rfl, _, rfl⟩
    | dropped => exact .inr ⟨rfl, _, rfl⟩
  | _ => exact .inl rfl

theorem Call.abandon_keeps : Call.Keeps (Call.abandon : Call Value α → Call Value α) := by
  apply Call.Keeps.of_cases
  rintro ⟨id, label, stage, channel⟩
  cases stage with
  | sending | awaiting => exact .inr ⟨rfl, _, rfl⟩
  | _ => exact .inl rfl

theorem Inv.calls (hinv : Inv s) {calls : List (Call Value α)} {reader : Reader Value}
    (hold : ∀ (k : Nat) (c : Call Value α), s.calls[k]? = some c →
      ∃ c' : Call Value α, calls[k]? = some c' ∧ c'.id = c.id ∧ c'.channel = c.channel)
    (hnew : ∀ (k : Nat) (c' : Call Value α), calls[k]? = some c' →
      ∃ c : Call Value α, s.calls[k]? = some c ∧ c'.id = c.id ∧ c'.channel = c.channel ∧
        (c'.stage.live = true → c.stage.live = true)) :
    Inv ⟨s.pending, calls, reader⟩ := by
  refine ⟨hinv.keys, fun id k hmem => ?_, fun k c' hc' hlive hopen => ?_⟩
  · obtain ⟨c, hc, hid, hopen⟩ := hinv.waiters id k hmem
    obtain ⟨c', hc', hid', hchannel⟩ := hold k c hc
    exact ⟨c', hc', hid'.trans hid, hchannel.trans hopen⟩
  · obtain ⟨c, hc, hid, hchannel, hstage⟩ := hnew k c' hc'
    rw [hid]
    exact hinv.waits k c hc (hstage hlive) (hchannel.symm.trans hopen)

theorem Inv.call (hinv : Inv s) (hf : Call.Keeps f) (i : Nat) :
    Inv { s with calls := s.calls.modify i f } := by
  apply hinv.calls
  · intro k c hc
    refine ⟨_, modify_get hc i, ?_⟩
    split
    · exact ⟨hf.id c, hf.channel c⟩
    · exact ⟨rfl, rfl⟩
  · intro k c' hc'
    obtain ⟨c, hc, rfl⟩ := modify_some hc'
    refine ⟨c, hc, ?_⟩
    split
    · exact ⟨hf.id c, hf.channel c, hf.live c⟩
    · exact ⟨rfl, rfl, fun hlive => hlive⟩

theorem resolves_call (hf : Call.Keeps f) (i : Nat) :
    Resolves s { s with calls := s.calls.modify i f } := by
  intro k c c' hc hc' hchanged
  rw [modify_get hc i] at hc'
  cases hc'
  split at hchanged
  · exact (hchanged (hf.channel c)).elim
  · exact (hchanged rfl).elim

theorem Inv.moves (hinv : Inv s) (reader : Reader Value) : Inv { s with reader } :=
  hinv.calls (fun _ c hc => ⟨c, hc, rfl, rfl⟩) fun _ c hc => ⟨c, hc, rfl, rfl, fun hlive => hlive⟩

theorem resolves_same (hcalls : s'.calls = s.calls) : Resolves s s' := by
  intro k c c' hc hc' hchanged
  rw [hcalls, hc] at hc'
  cases hc'
  exact (hchanged rfl).elim

/-- The waiter that had the id is dropped. -/
def replaced (s : Peer Value α) (id : RequestId) : List (Call Value α) :=
  match lookup s.pending id with
  | some old => s.calls.modify old (Call.put .dropped)
  | none => s.calls

theorem replaced_length (id : RequestId) : (replaced s id).length = s.calls.length := by
  rw [replaced]
  split
  · exact List.length_modify ..
  · rfl

theorem replaced_get (id : RequestId) (h : s.calls[k]? = some c) : (replaced s id)[k]? =
    some (if lookup s.pending id = some k then c.put .dropped else c) := by
  rw [replaced]
  split
  · rename_i old hold
    rw [modify_get h, hold]
    simp only [Option.some.injEq]
  · rename_i hnone
    rw [hnone, if_neg nofun, h]

theorem replaced_some {c' : Call Value α} (h : (replaced s id)[k]? = some c') :
    ∃ c, s.calls[k]? = some c := by
  have hlt := (List.getElem?_eq_some_iff.1 h).1
  rw [replaced_length] at hlt
  exact ⟨_, List.getElem?_eq_getElem hlt⟩

theorem register_eq (s : Peer Value α) (id : RequestId) (label : String) : s.register id label =
    { s with
      pending := (id, s.calls.length) :: remove s.pending id
      calls := replaced s id ++ [⟨id, label, .sending, .open⟩] } := rfl

theorem Inv.register (hinv : Inv s) (id : RequestId) (label : String) :
    Inv (s.register id label) := by
  rw [register_eq]
  refine ⟨?_, fun id' k hmem => ?_, fun k c' hc' hlive hopen => ?_⟩
  · rw [List.map_cons, List.nodup_cons]
    refine ⟨fun hmem => ?_, remove_keys hinv.keys⟩
    obtain ⟨⟨id', k⟩, hin, rfl⟩ := List.mem_map.1 hmem
    exact (mem_remove.1 hin).2 rfl
  · rcases List.mem_cons.1 hmem with heq | hmem
    · cases heq
      rw [← replaced_length id, List.getElem?_concat_length]
      exact ⟨_, rfl, rfl, rfl⟩
    · obtain ⟨hin, hne⟩ := mem_remove.1 hmem
      obtain ⟨c, hc, hid, hopen⟩ := hinv.waiters id' k hin
      have hget := replaced_get id hc
      have hnot : lookup s.pending id ≠ some k := by
        intro hlookup
        obtain ⟨d, hd, hdid, -⟩ := hinv.waiters id k ((lookup_eq_some hinv.keys).1 hlookup)
        rw [hc] at hd
        cases hd
        exact hne (hid.symm.trans hdid)
      rw [if_neg hnot] at hget
      refine ⟨c, ?_, hid, hopen⟩
      rw [List.getElem?_append_left (List.getElem?_eq_some_iff.1 hget).1, hget]
  · rcases Nat.lt_or_ge k (replaced s id).length with hlt | hge
    · rw [List.getElem?_append_left hlt] at hc'
      obtain ⟨c, hc⟩ := replaced_some hc'
      rw [replaced_get id hc] at hc'
      split at hc'
      · cases hc'
        cases hopen
      · rename_i hnot
        cases hc'
        have hmem := hinv.waits k c' hc hlive hopen
        refine List.mem_cons_of_mem _ (mem_remove.2 ⟨hmem, fun hid => hnot ?_⟩)
        exact (lookup_eq_some hinv.keys).2 (hid ▸ hmem)
    · rw [List.getElem?_append_right hge] at hc'
      have hlt := (List.getElem?_eq_some_iff.1 hc').1
      rw [List.length_singleton] at hlt
      have hk : k = (replaced s id).length := by omega
      rw [hk, Nat.sub_self] at hc'
      obtain rfl := Option.some.inj hc'
      rw [hk, replaced_length]
      exact List.mem_cons_self

theorem resolves_register (hinv : Inv s) (id : RequestId) (label : String) :
    Resolves s (s.register id label) := by
  rw [register_eq]
  intro k c c' hc hc' hchanged
  dsimp only at hc'
  have hget := replaced_get id hc
  rw [List.getElem?_append_left (List.getElem?_eq_some_iff.1 hget).1, hget] at hc'
  split at hc'
  · rename_i hlookup
    obtain ⟨d, hd, -, hopen⟩ := hinv.waiters id k ((lookup_eq_some hinv.keys).1 hlookup)
    rw [hc] at hd
    cases hd
    cases hc'
    exact ⟨hopen, .inl rfl⟩
  · cases hc'
    exact (hchanged rfl).elim

theorem Inv.resolve (hinv : Inv s) (id : RequestId) (response : PendingResponse Value) :
    Inv (s.resolve id response) := by
  rw [Peer.resolve]
  split
  · rename_i waiter hlookup
    refine ⟨remove_keys hinv.keys, fun id' k hmem => ?_, fun k c' hc' hlive hopen => ?_⟩
    · obtain ⟨hin, hne⟩ := mem_remove.1 hmem
      obtain ⟨c, hc, hid, hopen⟩ := hinv.waiters id' k hin
      have hnot : waiter ≠ k := by
        rintro rfl
        obtain ⟨d, hd, hdid, -⟩ := hinv.waiters id waiter ((lookup_eq_some hinv.keys).1 hlookup)
        rw [hc] at hd
        cases hd
        exact hne (hid.symm.trans hdid)
      refine ⟨c, ?_, hid, hopen⟩
      rw [modify_get hc, if_neg hnot]
    · obtain ⟨c, hc, rfl⟩ := modify_some hc'
      split at hopen
      · cases hopen
      · rename_i hnot
        rw [if_neg hnot] at hlive ⊢
        have hmem := hinv.waits k c hc hlive hopen
        refine mem_remove.2 ⟨hmem, fun hid => hnot ?_⟩
        have hsame := (lookup_eq_some hinv.keys).2 (hid ▸ hmem)
        exact Option.some.inj (hlookup.symm.trans hsame)
  · exact hinv

theorem resolves_resolve (hinv : Inv s) (hreader : s.reader = .resolving id response)
    (reader : Reader Value) : Resolves s { s.resolve id response with reader } := by
  intro k c c' hc hc' hchanged
  rw [Peer.resolve] at hc'
  split at hc'
  · rename_i waiter hlookup
    dsimp only at hc'
    rw [modify_get hc] at hc'
    split at hc'
    · rename_i hk
      obtain ⟨d, hd, hid, hopen⟩ := hinv.waiters id waiter ((lookup_eq_some hinv.keys).1 hlookup)
      rw [hk, hc] at hd
      cases hd
      cases hc'
      rw [hid]
      exact ⟨hopen, .inr ⟨hk ▸ hlookup, .inr ⟨response, rfl, hreader⟩⟩⟩
    · cases hc'
      exact (hchanged rfl).elim
  · rw [hc] at hc'
    cases hc'
    exact (hchanged rfl).elim

theorem drained_get {calls : List (Call Value α)} (h : calls[k]? = some c) :
    (pending.foldl (fun calls entry => calls.modify entry.2 (Call.put (.sent .shutdown))) calls)[k]? =
      some (if ∃ entry ∈ pending, entry.2 = k then c.put (.sent .shutdown) else c) := by
  induction pending generalizing calls c with
  | nil => rw [List.foldl_nil, h, if_neg (fun hex => nomatch hex.choose_spec.1)]
  | cons entry pending ih =>
    rw [List.foldl_cons, ih (modify_get h entry.2)]
    by_cases hk : entry.2 = k
    · have htold : ∃ e ∈ entry :: pending, e.2 = k := ⟨entry, List.mem_cons_self, hk⟩
      rw [if_pos hk, if_pos htold]
      exact congrArg some (ite_self _)
    · rw [if_neg hk]
      congr 1
      apply if_congr _ rfl rfl
      simp only [List.mem_cons, exists_eq_or_imp, hk, false_or]

theorem drained_some {calls : List (Call Value α)} (h : (pending.foldl
    (fun calls entry => calls.modify entry.2 (Call.put (.sent .shutdown))) calls)[k]? = some c') :
    ∃ c, calls[k]? = some c := by
  have hlength : (pending.foldl
      (fun calls entry => calls.modify entry.2 (Call.put (.sent .shutdown))) calls).length =
      calls.length := by
    clear h
    induction pending generalizing calls with
    | nil => rfl
    | cons entry pending ih => rw [List.foldl_cons, ih, List.length_modify]
  have hlt := (List.getElem?_eq_some_iff.1 h).1
  rw [hlength] at hlt
  exact ⟨_, List.getElem?_eq_getElem hlt⟩

theorem Inv.drained (hinv : Inv s) {c : Call Value α} (hc : c ∈ s.shutdown.calls)
    (hlive : c.stage.live = true) : c.channel ≠ .open := by
  intro hopen
  obtain ⟨k, hk⟩ := List.mem_iff_getElem?.1 hc
  obtain ⟨d, hd⟩ := drained_some hk
  rw [Peer.shutdown, drained_get hd] at hk
  split at hk
  · cases hk
    cases hopen
  · rename_i hnot
    cases hk
    exact hnot ⟨_, hinv.waits k c hd hlive hopen, rfl⟩

theorem Inv.shutdown (hinv : Inv s) : Inv s.shutdown := by
  refine ⟨List.nodup_nil, fun id k hmem => (nomatch hmem), fun k c hc hlive hopen => ?_⟩
  exact (hinv.drained (List.mem_of_getElem? hc) hlive hopen).elim

theorem resolves_shutdown (hinv : Inv s) (hreader : s.reader = .ending) (reader : Reader Value) :
    Resolves s { s.shutdown with reader } := by
  intro k c c' hc hc' hchanged
  rw [Peer.shutdown] at hc'
  dsimp only at hc'
  rw [drained_get hc] at hc'
  split at hc'
  · rename_i hentry
    obtain ⟨⟨id, k⟩, hmem, rfl⟩ := hentry
    obtain ⟨d, hd, hid, hopen⟩ := hinv.waiters id k hmem
    rw [hc] at hd
    cases hd
    cases hc'
    rw [hid]
    exact ⟨hopen, .inr ⟨(lookup_eq_some hinv.keys).2 hmem, .inl ⟨rfl, hreader⟩⟩⟩
  · cases hc'
    exact (hchanged rfl).elim

variable {decode : Value → Except String α}

theorem Inv.step (hinv : Inv s) (event : Event Value) : Inv (s.step decode event) := by
  cases event with
  | register id label => exact hinv.register id label
  | sent call result => exact hinv.call (Call.sent_keeps result) call
  | cancelled call => exact hinv.call Call.cancelled_keeps call
  | received call => exact hinv.call (Call.received_keeps decode) call
  | abandoned call => exact hinv.call Call.abandon_keeps call
  | read result =>
    rw [Peer.step]
    split
    · exact hinv.moves _
    · exact hinv
  | reader =>
    rw [Peer.step]
    split
    · exact (hinv.resolve _ _).moves _
    · exact hinv.shutdown.moves _
    · exact hinv
    · exact hinv

theorem Inv.resolves (hinv : Inv s) (event : Event Value) : Resolves s (s.step decode event) := by
  cases event with
  | register id label => exact resolves_register hinv id label
  | sent call result => exact resolves_call (Call.sent_keeps result) call
  | cancelled call => exact resolves_call Call.cancelled_keeps call
  | received call => exact resolves_call (Call.received_keeps decode) call
  | abandoned call => exact resolves_call Call.abandon_keeps call
  | read result =>
    rw [Peer.step]
    split
    · exact resolves_same rfl
    · exact resolves_same rfl
  | reader =>
    rw [Peer.step]
    split
    · exact resolves_resolve hinv ‹_› _
    · exact resolves_shutdown hinv ‹_› _
    · exact resolves_same rfl
    · exact resolves_same rfl

theorem Inv.new : Inv (Peer.new : Peer Value α) :=
  ⟨List.nodup_nil, fun _ _ hmem => (nomatch hmem), fun _ _ hget => (nomatch hget)⟩

structure Drained (s : Peer Value α) : Prop where
  pending : s.pending = []
  calls : ∀ c ∈ s.calls, c.stage.live = true → c.channel ≠ .open

theorem Stage.live_of_awaits {stage : Stage α} (h : stage.awaits = true) : stage.live = true := by
  cases stage with
  | awaiting => rfl
  | _ => cases h

theorem Drained.settled (h : Drained s) : Settled s := by
  exact ⟨h.pending, fun c hc hwaits => h.calls c hc (Stage.live_of_awaits hwaits.1) hwaits.2⟩

theorem Drained.call (h : Drained s) (hf : Call.Keeps f)
    (i : Nat) : Drained { s with calls := s.calls.modify i f } := by
  refine ⟨h.pending, fun c' hc' hlive => ?_⟩
  obtain ⟨k, hk⟩ := List.mem_iff_getElem?.1 hc'
  obtain ⟨c, hc, rfl⟩ := modify_some hk
  split
  · rename_i hik
    rw [if_pos hik] at hlive
    rw [hf.channel]
    exact h.calls c (List.mem_of_getElem? hc) (hf.live c hlive)
  · rename_i hik
    rw [if_neg hik] at hlive
    exact h.calls c (List.mem_of_getElem? hc) hlive

theorem Reader.read_ne_ended (result : ReadResult Value) : Reader.read result ≠ .ended := by
  cases result with
  | response id result ok => cases ok <;> exact nofun
  | error error ok => cases ok <;> exact nofun
  | request ok => cases ok <;> exact nofun
  | notJson ok => cases ok <;> exact nofun
  | notification finished =>
    rcases finished with _ | _ | _ <;> exact nofun
  | _ => exact nofun

theorem Drained.step (hinv : Inv s) (h : s.reader = .ended → Drained s) {event : Event Value}
    (hok : InTime s event) :
    (s.step decode event).reader = .ended → Drained (s.step decode event) := by
  cases event with
  | register id label => exact fun hended => (hok hended).elim
  | sent call result => exact fun hended => (h hended).call (Call.sent_keeps result) call
  | cancelled call => exact fun hended => (h hended).call Call.cancelled_keeps call
  | received call => exact fun hended => (h hended).call (Call.received_keeps decode) call
  | abandoned call => exact fun hended => (h hended).call Call.abandon_keeps call
  | read result =>
    rw [Peer.step]
    split
    · exact fun hended => (Reader.read_ne_ended result hended).elim
    · exact h
  | reader =>
    rw [Peer.step]
    split
    · exact nofun
    · exact fun _ => ⟨rfl, fun c hc hlive => hinv.drained hc hlive⟩
    · exact h
    · exact h

/-- All that happens is as asked exactly if no request registers after the map was drained. -/
theorem answered_iff (events : List (Event Value)) :
    Answered decode events ↔ Run.Each (Peer.step decode) InTime .new events := by
  constructor
  · intro hall
    apply Run.Each.of_split
    rintro before event after rfl
    cases event with
    | register id label =>
      intro hended
      have hbegins : before ++ [.register id label] <+: before ++ .register id label :: after :=
        ⟨after, by rw [List.append_assoc]; rfl⟩
      have hsettled := (hall _ hbegins).2
      rw [Run.run_append] at hsettled
      cases (hsettled hended).1
    | _ => trivial
  · intro hok before hbegins
    obtain ⟨after, rfl⟩ := hbegins
    have hinv : Inv (Run.run (Peer.step decode) .new before) :=
      Run.preserves (fun _ event hinv => hinv.step event) Inv.new before
    refine ⟨fun event => hinv.resolves event, fun hended => ?_⟩
    have hdrained := Run.Each.preserves (P := fun s => Inv s ∧ (s.reader = .ended → Drained s))
      (fun _ event h hok => ⟨h.1.step event, Drained.step h.1 h.2 hok⟩) ⟨Inv.new, nofun⟩
      hok.append.1
    exact (hdrained.2 hended).settled

end

/-- A request that registers after the server has closed its output waits, and stays in the map. -/
theorem not_answered : ¬∀ events : List (Event Unit),
    Answered (fun _ => .ok () : Unit → Except String Unit) events := by
  intro h
  have hended := (h [.read .eof, .reader, .register (.integer 1) "turn/interrupt", .sent 0 (.ok ())]
    _ (List.prefix_refl _)).2 rfl
  exact hended.2 _ (List.mem_singleton_self _) ⟨rfl, rfl⟩

end Cdesktop.JsonRpcPeer
