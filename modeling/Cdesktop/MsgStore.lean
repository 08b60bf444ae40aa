import Cdesktop.LogCodec

namespace Cdesktop
open ExecutionLog (maxU64 saturatingAdd checkedAdd)
set_option autoImplicit true

structure StoredMsg (α : Type) where
  sequence : Nat
  msg : α
  bytes : Nat

/-- The ring and the watch channel's sender: `version` counts its values, `closed` once it is
dropped. A panic under the lock poisons it. -/
structure MsgStore (α : Type) where
  history : List (StoredMsg α)
  totalBytes : Nat
  nextSequence : Nat
  version : Nat
  closed : Bool
  poisoned : Bool

def MsgStore.new : MsgStore α :=
  { history := []
    totalBytes := 0
    nextSequence := 0
    version := 0
    closed := false
    poisoned := false }

/-- The oldest messages make room for the incoming one. -/
def evict (historyBytes bytes : Nat) : List (StoredMsg α) → Nat → List (StoredMsg α) × Nat
  | [], total => ([], total)
  | front :: history, total =>
    if historyBytes < saturatingAdd total bytes then
      evict historyBytes bytes history (total - front.bytes)
    else (front :: history, total)

def MsgStore.push (historyBytes : Nat) (msg : α) (bytes : Nat) (s : MsgStore α) : MsgStore α :=
  match checkedAdd s.nextSequence 1 with
  | none => { s with poisoned := true }
  | some nextSequence =>
    let (history, totalBytes) := evict historyBytes bytes s.history s.totalBytes
    let version := s.version + 1
    if bytes ≤ historyBytes then
      { s with
        history := history ++ [⟨s.nextSequence, msg, bytes⟩]
        totalBytes := saturatingAdd totalBytes bytes
        nextSequence
        version }
    else { s with history, totalBytes, nextSequence, version }

def MsgStore.historyComplete (s : MsgStore α) : Bool :=
  match s.history.head? with
  | none => s.nextSequence = 0
  | some entry => entry.sequence = 0

/-- The sequence number of the oldest message kept. -/
def MsgStore.first (s : MsgStore α) : Nat :=
  match s.history.head? with
  | none => s.nextSequence
  | some entry => entry.sequence

inductive SubscriberPhase where
  | reading | waiting | ended
deriving DecidableEq

/-- A stream handed out by `subscribe`, with where it started and what it has yielded: a message, or
the number of messages it says were evicted. -/
structure Subscriber (α : Type) where
  start : Nat
  next : Nat
  seen : Nat
  phase : SubscriberPhase
  yielded : List (Except Nat α)

def MsgStore.subscribe (includeHistory : Bool) (s : MsgStore α) : Subscriber α :=
  let next := if includeHistory then 0 else s.nextSequence
  { start := next
    next
    seen := s.version
    phase := .reading
    yielded := [] }

/-- The read under the lock: a gap, the next message, or nothing yet. -/
def Subscriber.read (s : MsgStore α) (sub : Subscriber α) : Subscriber α :=
  if sub.next < s.first then
    { sub with
      next := s.first
      yielded := sub.yielded ++ [.error (s.first - sub.next)] }
  else
    match s.history[sub.next - s.first]? with
    | some entry =>
      { sub with
        next := sub.next + 1
        yielded := sub.yielded ++ [.ok entry.msg] }
    | none => { sub with phase := .waiting }

/-- `changed()`: a value not seen yet comes before the end of the channel. -/
def Subscriber.changed (s : MsgStore α) (sub : Subscriber α) : Subscriber α :=
  if sub.seen ≠ s.version then
    { sub with
      seen := s.version
      phase := .reading }
  else if s.closed then { sub with phase := .ended }
  else sub

def Subscriber.poll (s : MsgStore α) (sub : Subscriber α) : Subscriber α :=
  match sub.phase with
  | .reading => if s.poisoned then sub else sub.read s
  | .waiting => sub.changed s
  | .ended => sub

/-- The store, its subscribers, and what has been pushed, each message with its size. -/
structure Mirror (α : Type) where
  store : MsgStore α
  pushed : List (α × Nat)
  subscribers : List (Subscriber α)

def Mirror.new : Mirror α := ⟨.new, [], []⟩

inductive MirrorEvent (α : Type) where
  | push (msg : α) (bytes : Nat)
  | subscribe (includeHistory : Bool)
  | poll (i : Nat)
  | drop

/-- Nobody reaches the store once it is dropped or its lock poisoned. -/
def MsgStore.reachable (s : MsgStore α) : Bool := !s.closed && !s.poisoned

def Mirror.step (historyBytes : Nat) (w : Mirror α) : MirrorEvent α → Mirror α
  | .push msg bytes =>
    if w.store.reachable then
      let store := w.store.push historyBytes msg bytes
      { w with
        store
        pushed := if store.poisoned then w.pushed else w.pushed ++ [(msg, bytes)] }
    else w
  | .subscribe includeHistory =>
    if w.store.reachable then
      { w with subscribers := w.subscribers ++ [w.store.subscribe includeHistory] }
    else w
  | .poll i =>
    match w.subscribers[i]? with
    | none => w
    | some sub => { w with subscribers := w.subscribers.set i (sub.poll w.store) }
  | .drop => { w with store := { w.store with closed := true } }

def Mirror.run (historyBytes : Nat) (w : Mirror α) (events : List (MirrorEvent α)) : Mirror α :=
  events.foldl (Mirror.step historyBytes) w

/-- The messages pushed, numbered from `n` on. -/
@[simp] def numbered : Nat → List (α × Nat) → List (StoredMsg α)
  | _, [] => []
  | n, (msg, bytes) :: pushed => ⟨n, msg, bytes⟩ :: numbered (n + 1) pushed

@[simp] theorem numbered_length (n : Nat) (pushed : List (α × Nat)) :
    (numbered n pushed).length = pushed.length := by
  induction pushed generalizing n with
  | nil => rfl
  | cons p pushed ih => simp [numbered, ih]

theorem numbered_append (n : Nat) (pushed pushed' : List (α × Nat)) :
    numbered n (pushed ++ pushed') =
      numbered n pushed ++ numbered (n + pushed.length) pushed' := by
  induction pushed generalizing n with
  | nil => rfl
  | cons p pushed ih =>
    simp only [List.cons_append, numbered, ih, List.length_cons, List.cons.injEq, true_and]
    congr 2
    omega

theorem numbered_drop (n k : Nat) (pushed : List (α × Nat)) :
    (numbered n pushed).drop k = numbered (n + k) (pushed.drop k) := by
  induction pushed generalizing n k with
  | nil => simp [numbered]
  | cons p pushed ih =>
    cases k with
    | zero => rfl
    | succ k =>
      simp only [numbered, List.drop_succ_cons, ih]
      congr 1
      omega

theorem numbered_getElem? (n i : Nat) (pushed : List (α × Nat)) :
    (numbered n pushed)[i]? = pushed[i]?.map fun p => ⟨n + i, p.1, p.2⟩ := by
  induction pushed generalizing n i with
  | nil => simp [numbered]
  | cons p pushed ih =>
    cases i with
    | zero => simp [numbered]
    | succ i =>
      simp only [numbered, List.getElem?_cons_succ, ih]
      congr 1
      funext q
      congr 1
      omega

/-- The history is the newest messages, numbered as they were pushed, their sizes are accounted for
and within the budget. -/
structure MsgStore.Mirrors (historyBytes : Nat) (s : MsgStore α) (pushed : List (α × Nat)) :
    Prop where
  suffix : ∃ k ≤ pushed.length, s.history = numbered k (pushed.drop k)
  next : s.nextSequence = pushed.length
  version : s.version = pushed.length
  total : s.totalBytes = (s.history.map StoredMsg.bytes).sum
  budget : s.totalBytes ≤ historyBytes

def Exact (historyBytes total : Nat) : Prop := historyBytes < maxU64 ∨ total ≤ maxU64

theorem lt_saturatingAdd (h : Exact historyBytes (a + b)) :
    historyBytes < saturatingAdd a b ↔ historyBytes < a + b := by
  unfold Exact at h
  unfold saturatingAdd
  omega

theorem Exact.mono (h : Exact historyBytes total) (hle : total' ≤ total) :
    Exact historyBytes total' := by
  unfold Exact at *
  omega

/-- What is left after eviction leaves room for the message, if there is room for it at all. -/
theorem evict_spec (history : List (StoredMsg α))
    (hexact : Exact historyBytes ((history.map StoredMsg.bytes).sum + bytes)) :
    ∃ k ≤ history.length,
      evict historyBytes bytes history (history.map StoredMsg.bytes).sum =
        (history.drop k, ((history.drop k).map StoredMsg.bytes).sum) ∧
      (history.drop k = [] ∨ ((history.drop k).map StoredMsg.bytes).sum + bytes ≤ historyBytes) := by
  induction history with
  | nil => exact ⟨0, Nat.le_refl _, rfl, Or.inl rfl⟩
  | cons front history ih =>
    rw [evict]
    have hsum : ((front :: history).map StoredMsg.bytes).sum =
        front.bytes + (history.map StoredMsg.bytes).sum := by simp
    split
    · obtain ⟨k, hk, heq, hroom⟩ := ih (hexact.mono (by rw [hsum]; omega))
      refine ⟨k + 1, Nat.succ_le_succ hk, ?_, hroom⟩
      rw [hsum, Nat.add_sub_cancel_left]
      exact heq
    · rename_i hfits
      rw [lt_saturatingAdd hexact] at hfits
      exact ⟨0, Nat.zero_le _, rfl, Or.inr (Nat.not_lt.mp hfits)⟩

theorem sum_map_drop_le (f : β → Nat) (l : List β) (k : Nat) :
    ((l.drop k).map f).sum ≤ (l.map f).sum := by
  conv_rhs => rw [← List.take_append_drop k l, List.map_append, List.sum_append]
  omega

theorem numbered_bytes (n : Nat) (pushed : List (α × Nat)) :
    (numbered n pushed).map StoredMsg.bytes = pushed.map Prod.snd := by
  induction pushed generalizing n with
  | nil => rfl
  | cons p pushed ih => simp [numbered, ih]

theorem MsgStore.Mirrors.retained (h : MsgStore.Mirrors historyBytes s pushed) :
    (s.history.map StoredMsg.bytes).sum ≤ (pushed.map Prod.snd).sum := by
  obtain ⟨k, -, hk⟩ := h.suffix
  rw [hk, numbered_bytes]
  exact sum_map_drop_le Prod.snd pushed k

theorem MsgStore.push_cases (historyBytes : Nat) (msg : α) (bytes : Nat) (s : MsgStore α) :
    (s.push historyBytes msg bytes = { s with poisoned := true } ∧ maxU64 ≤ s.nextSequence) ∨
    ∃ history totalBytes, evict historyBytes bytes s.history s.totalBytes = (history, totalBytes) ∧
      s.push historyBytes msg bytes =
        if bytes ≤ historyBytes then
          { s with
            history := history ++ [⟨s.nextSequence, msg, bytes⟩]
            totalBytes := saturatingAdd totalBytes bytes
            nextSequence := s.nextSequence + 1
            version := s.version + 1 }
        else
          { s with
            history
            totalBytes
            nextSequence := s.nextSequence + 1
            version := s.version + 1 } := by
  unfold push checkedAdd
  by_cases hnext : s.nextSequence + 1 ≤ maxU64
  · rw [if_pos hnext]
    exact Or.inr ⟨_, _, rfl, rfl⟩
  · rw [if_neg hnext]
    exact Or.inl ⟨rfl, by omega⟩

theorem MsgStore.Mirrors.push (h : MsgStore.Mirrors historyBytes s pushed)
    (hpoisoned : s.poisoned = false)
    (hexact : Exact historyBytes ((pushed ++ [(msg, bytes)]).map Prod.snd).sum) :
    (s.push historyBytes msg bytes).Mirrors historyBytes
      (if (s.push historyBytes msg bytes).poisoned then pushed else pushed ++ [(msg, bytes)]) := by
  obtain ⟨hpanic, -⟩ | ⟨history, totalBytes, hevict, hpush⟩ := s.push_cases historyBytes msg bytes
  · rw [hpanic]
    exact ⟨h.suffix, h.next, h.version, h.total, h.budget⟩
  have hsum : ((pushed ++ [(msg, bytes)]).map Prod.snd).sum = (pushed.map Prod.snd).sum + bytes := by
    simp
  rw [hsum] at hexact
  have hexact' := hexact.mono (Nat.add_le_add_right h.retained bytes)
  obtain ⟨j, hj, heq, hroom⟩ := evict_spec s.history hexact'
  rw [h.total, heq] at hevict
  obtain ⟨rfl, rfl⟩ := Prod.mk.inj hevict
  obtain ⟨k, hk, hhistory⟩ := h.suffix
  have hlen : s.history.length = pushed.length - k := by
    rw [hhistory, numbered_length, List.length_drop]
  have hdrop : s.history.drop j = numbered (k + j) (pushed.drop (k + j)) := by
    rw [hhistory, numbered_drop, List.drop_drop]
  rw [hpush]
  split
  · rename_i hfits
    have hbudget : ((s.history.drop j).map StoredMsg.bytes).sum + bytes ≤ historyBytes := by
      rcases hroom with hnil | hroom
      · rw [hnil]
        simpa using hfits
      · exact hroom
    have hle : ((s.history.drop j).map StoredMsg.bytes).sum ≤
        (s.history.map StoredMsg.bytes).sum :=
      sum_map_drop_le StoredMsg.bytes s.history j
    have htotal : saturatingAdd ((s.history.drop j).map StoredMsg.bytes).sum bytes =
        ((s.history.drop j).map StoredMsg.bytes).sum + bytes := by
      have := hexact'.mono (Nat.add_le_add_right hle bytes)
      unfold Exact at this
      unfold saturatingAdd
      omega
    simp only [hpoisoned, Bool.false_eq_true, if_false]
    refine ⟨⟨k + j, ?_, ?_⟩, ?_, ?_, ?_, ?_⟩
    · rw [List.length_append]
      omega
    · rw [hdrop, List.drop_append_of_le_length (by omega), numbered_append, h.next]
      have hnext : k + j + (pushed.drop (k + j)).length = pushed.length := by
        rw [List.length_drop]
        omega
      rw [hnext]
      rfl
    · rw [List.length_append, h.next]
      rfl
    · rw [List.length_append, h.version]
      rfl
    · rw [htotal]
      simp
    · rw [htotal]
      exact hbudget
  · rename_i hbig
    have hnil : s.history.drop j = [] := by
      rcases hroom with hnil | hroom
      · exact hnil
      · omega
    simp only [hpoisoned, Bool.false_eq_true, if_false]
    refine ⟨⟨(pushed ++ [(msg, bytes)]).length, Nat.le_refl _, ?_⟩, ?_, ?_, rfl, ?_⟩
    · rw [hnil, List.drop_length]
      rfl
    · rw [List.length_append, h.next]
      rfl
    · rw [List.length_append, h.version]
      rfl
    · rw [hnil]
      exact Nat.zero_le _

theorem MsgStore.Mirrors.first_eq (h : MsgStore.Mirrors historyBytes s pushed) :
    s.first ≤ pushed.length ∧ s.history = numbered s.first (pushed.drop s.first) := by
  obtain ⟨k, hk, hhistory⟩ := h.suffix
  have hfirst : s.first = k := by
    unfold first
    rw [hhistory]
    cases hdrop : pushed.drop k with
    | nil =>
      have hle := List.drop_eq_nil_iff.mp hdrop
      rw [numbered]
      exact h.next.trans (Nat.le_antisymm hle hk)
    | cons p rest => rfl
  rw [hfirst]
  exact ⟨hk, hhistory⟩

theorem MsgStore.Mirrors.complete_iff (h : MsgStore.Mirrors historyBytes s pushed) :
    s.historyComplete = true ↔ s.history = numbered 0 pushed := by
  have hcomplete : s.historyComplete = true ↔ s.first = 0 := by
    unfold historyComplete first
    cases s.history.head? <;> simp
  obtain ⟨hle, hhistory⟩ := h.first_eq
  rw [hcomplete]
  constructor
  · intro hzero
    rw [hhistory, hzero, List.drop_zero]
  · intro hall
    rw [hall] at hhistory
    have hlen := congrArg List.length hhistory
    rw [numbered_length, numbered_length, List.length_drop] at hlen
    omega

/-- What a subscriber has yielded between two sequence numbers: every message on the way once and in
order, and for each gap one error that counts the evicted messages of the gap. -/
inductive Follows (pushed : List (α × Nat)) (evicted start : Nat) :
    List (Except Nat α) → Nat → Prop
  | fresh : Follows pushed evicted start [] start
  | message : Follows pushed evicted start yielded p → pushed[p]? = some (msg, bytes) →
      Follows pushed evicted start (yielded ++ [.ok msg]) (p + 1)
  | lag : Follows pushed evicted start yielded p → p < stop → stop ≤ evicted →
      Follows pushed evicted start (yielded ++ [.error (stop - p)]) stop

theorem Follows.mono {pushed : List (α × Nat)} (h : Follows pushed evicted start yielded p)
    (more : List (α × Nat)) (hle : evicted ≤ evicted') : Follows (pushed ++ more) evicted' start yielded p := by
  induction h with
  | fresh => exact .fresh
  | message _ hmsg ih =>
    rw [← List.getElem?_append_left (List.getElem?_eq_some_iff.mp hmsg).1] at hmsg
    exact .message ih hmsg
  | lag _ hlt hstop ih => exact .lag ih hlt (hstop.trans hle)

structure Subscriber.Holds (s : MsgStore α) (pushed : List (α × Nat)) (sub : Subscriber α) :
    Prop where
  follows : Follows pushed s.first sub.start sub.yielded sub.next
  bounded : sub.next ≤ pushed.length
  seen : sub.seen ≤ s.version
  awake : sub.phase = .waiting → sub.seen = s.version → sub.next = pushed.length
  ended : sub.phase = .ended → s.closed = true ∧ sub.next = pushed.length

theorem Subscriber.Holds.read (hs : MsgStore.Mirrors historyBytes s pushed)
    (h : Subscriber.Holds s pushed sub) (hphase : sub.phase = .reading) :
    (sub.read s).Holds s pushed := by
  obtain ⟨hle, hhistory⟩ := hs.first_eq
  have hbounded := h.bounded
  unfold Subscriber.read
  split
  · rename_i hlt
    exact
      { follows := h.follows.lag hlt (Nat.le_refl _)
        bounded := hle
        seen := h.seen
        awake := fun hwait => by simp [hphase] at hwait
        ended := fun hend => by simp [hphase] at hend }
  rename_i hlt
  have hget : s.history[sub.next - s.first]? =
      pushed[sub.next]?.map fun p => ⟨sub.next, p.1, p.2⟩ := by
    have hnext : s.first + (sub.next - s.first) = sub.next := by omega
    conv_lhs => rw [hhistory]
    rw [numbered_getElem?, List.getElem?_drop, hnext]
  rw [hget]
  cases hmsg : pushed[sub.next]? with
  | some p =>
    have hlast := (List.getElem?_eq_some_iff.mp hmsg).1
    exact
      { follows := h.follows.message hmsg
        bounded := hlast
        seen := h.seen
        awake := fun hwait => by simp [hphase] at hwait
        ended := fun hend => by simp [hphase] at hend }
  | none =>
    have hnone := List.getElem?_eq_none_iff.mp hmsg
    exact
      { follows := h.follows
        bounded := hbounded
        seen := h.seen
        awake := fun _ _ => Nat.le_antisymm hbounded hnone
        ended := fun hend => by cases hend }

theorem Subscriber.Holds.poll (hs : MsgStore.Mirrors historyBytes s pushed)
    (h : Subscriber.Holds s pushed sub) : (sub.poll s).Holds s pushed := by
  unfold Subscriber.poll
  cases hphase : sub.phase with
  | reading =>
    simp only
    split
    · exact h
    · exact h.read hs hphase
  | waiting =>
    simp only [Subscriber.changed]
    split
    · exact
        { follows := h.follows
          bounded := h.bounded
          seen := Nat.le_refl _
          awake := fun hwait => by cases hwait
          ended := fun hend => by cases hend }
    rename_i hseen
    split
    · rename_i hclosed
      exact
        { follows := h.follows
          bounded := h.bounded
          seen := h.seen
          awake := fun hwait => by cases hwait
          ended := fun _ => ⟨hclosed, h.awake hphase (not_not.mp hseen)⟩ }
    · exact h
  | ended => exact h

theorem Subscriber.Holds.push (hs : MsgStore.Mirrors historyBytes s pushed)
    (hs' : MsgStore.Mirrors historyBytes s' (pushed ++ [(msg, bytes)]))
    (h : Subscriber.Holds s pushed sub) (hopen : s.closed = false) (hfirst : s.first ≤ s'.first) :
    sub.Holds s' (pushed ++ [(msg, bytes)]) := by
  have hversion : s'.version = s.version + 1 := by
    rw [hs'.version, hs.version, List.length_append]
    rfl
  have hseen := h.seen
  exact
    { follows := h.follows.mono _ hfirst
      bounded := by
        rw [List.length_append]
        exact Nat.le_add_right_of_le h.bounded
      seen := by omega
      awake := fun _ heq => by omega
      ended := fun hend => by
        have hclosed := (h.ended hend).1
        rw [hopen] at hclosed
        cases hclosed }

theorem evict_length_le (historyBytes bytes : Nat) (history : List (StoredMsg α)) (total : Nat) :
    (evict historyBytes bytes history total).1.length ≤ history.length := by
  induction history generalizing total with
  | nil => exact Nat.le_refl _
  | cons front history ih =>
    rw [evict]
    split
    · exact (ih _).trans (Nat.le_succ _)
    · exact Nat.le_refl _

theorem MsgStore.Mirrors.first_mono (hs : MsgStore.Mirrors historyBytes s pushed)
    (hs' : (s.push historyBytes msg bytes).Mirrors historyBytes (pushed ++ [(msg, bytes)])) :
    s.first ≤ (s.push historyBytes msg bytes).first := by
  obtain ⟨hle, hhistory⟩ := hs.first_eq
  obtain ⟨hle', hhistory'⟩ := hs'.first_eq
  have hlen := congrArg List.length hhistory
  have hlen' := congrArg List.length hhistory'
  rw [numbered_length, List.length_drop] at hlen hlen'
  simp only [List.length_append, List.length_singleton] at hlen' hle'
  have hgrow : (s.push historyBytes msg bytes).history.length ≤ s.history.length + 1 := by
    obtain ⟨hpanic, -⟩ | ⟨history, totalBytes, hevict, hpush⟩ := s.push_cases historyBytes msg bytes
    · rw [hpanic]
      exact Nat.le_succ _
    · have := evict_length_le historyBytes bytes s.history s.totalBytes
      rw [hevict] at this
      rw [hpush]
      split
      · simpa using this
      · exact this.trans (Nat.le_succ _)
  omega

structure Mirror.Holds (historyBytes : Nat) (w : Mirror α) : Prop where
  store : w.store.Mirrors historyBytes w.pushed
  healthy : w.store.poisoned = true → maxU64 ≤ w.pushed.length
  subscribers : ∀ sub ∈ w.subscribers, sub.Holds w.store w.pushed

theorem Mirror.new_holds (historyBytes : Nat) : (Mirror.new : Mirror α).Holds historyBytes where
  store := ⟨⟨0, Nat.le_refl _, rfl⟩, rfl, rfl, rfl, Nat.zero_le _⟩
  healthy := fun hpoisoned => by cases hpoisoned
  subscribers := fun sub hsub => by cases hsub

def MirrorEvent.bytes : MirrorEvent α → Nat
  | .push _ bytes => bytes
  | _ => 0

theorem Subscriber.Holds.withFlags (h : Subscriber.Holds s pushed sub) (closed poisoned : Bool)
    (hclosed : s.closed = true → closed = true) :
    sub.Holds { s with closed, poisoned } pushed where
  follows := h.follows
  bounded := h.bounded
  seen := h.seen
  awake := h.awake
  ended := fun hend => ⟨hclosed (h.ended hend).1, (h.ended hend).2⟩

theorem Mirror.Holds.step {w : Mirror α} (h : w.Holds historyBytes) (event : MirrorEvent α)
    (hexact : Exact historyBytes ((w.pushed.map Prod.snd).sum + event.bytes)) :
    (w.step historyBytes event).Holds historyBytes := by
  cases event with
  | push msg bytes =>
    rw [Mirror.step]
    split
    · rename_i hreachable
      rw [MsgStore.reachable, Bool.and_eq_true, Bool.not_eq_true', Bool.not_eq_true'] at hreachable
      obtain ⟨hopen, hpoisoned⟩ := hreachable
      have hexact' : Exact historyBytes ((w.pushed ++ [(msg, bytes)]).map Prod.snd).sum := by
        simpa [MirrorEvent.bytes] using hexact
      have hs := h.store.push hpoisoned hexact'
      cases hpush : (w.store.push historyBytes msg bytes).poisoned with
      | true =>
        rw [hpush, if_pos rfl] at hs
        have hpanic : w.store.push historyBytes msg bytes = { w.store with poisoned := true } ∧
            maxU64 ≤ w.store.nextSequence := by
          obtain hpanic | ⟨history, totalBytes, -, heq⟩ := w.store.push_cases historyBytes msg bytes
          · exact hpanic
          · rw [heq] at hpush
            split at hpush <;> simp [hpoisoned] at hpush
        simp only [hpush, if_true]
        refine ⟨hs, fun _ => ?_, ?_⟩
        · rw [← h.store.next]
          exact hpanic.2
        · intro sub hsub
          have hsub := (h.subscribers sub hsub).withFlags w.store.closed true id
          simp only [hpanic.1]
          exact hsub
      | false =>
        rw [hpush, if_neg Bool.false_ne_true] at hs
        simp only [hpush, Bool.false_eq_true, if_false]
        refine ⟨hs, fun hp => by simp [hpush] at hp, ?_⟩
        intro sub hsub
        exact (h.subscribers sub hsub).push h.store hs hopen (h.store.first_mono hs)
    · exact h
  | subscribe includeHistory =>
    rw [Mirror.step]
    split
    · rename_i hreachable
      refine ⟨h.store, h.healthy, ?_⟩
      intro sub hsub
      rcases List.mem_append.mp hsub with hsub | hsub
      · exact h.subscribers sub hsub
      · rw [List.mem_singleton.mp hsub]
        refine ⟨.fresh, ?_, Nat.le_refl _, (fun hwait => by cases hwait), fun hend => by cases hend⟩
        simp only [MsgStore.subscribe]
        split
        · exact Nat.zero_le _
        · exact Nat.le_of_eq h.store.next
    · exact h
  | poll i =>
    rw [Mirror.step]
    cases hi : w.subscribers[i]? with
    | none => exact h
    | some sub =>
      refine ⟨h.store, h.healthy, ?_⟩
      intro other hother
      rcases List.mem_or_eq_of_mem_set hother with hother | rfl
      · exact h.subscribers other hother
      · exact (h.subscribers sub (List.mem_of_getElem? hi)).poll h.store
  | drop =>
    refine ⟨⟨h.store.suffix, h.store.next, h.store.version, h.store.total, h.store.budget⟩,
      h.healthy, ?_⟩
    intro sub hsub
    exact (h.subscribers sub hsub).withFlags true w.store.poisoned fun _ => rfl

theorem Mirror.step_pushed_sum (historyBytes : Nat) (w : Mirror α) (event : MirrorEvent α) :
    ((w.step historyBytes event).pushed.map Prod.snd).sum ≤
      (w.pushed.map Prod.snd).sum + event.bytes := by
  cases event with
  | push msg bytes =>
    rw [step]
    split
    · simp only
      split
      · exact Nat.le_add_right _ _
      · simp [MirrorEvent.bytes]
    · exact Nat.le_add_right _ _
  | subscribe includeHistory =>
    rw [step]
    split
    · exact Nat.le_refl _
    · exact Nat.le_refl _
  | poll i =>
    rw [step]
    split
    · exact Nat.le_refl _
    · exact Nat.le_refl _
  | drop => exact Nat.le_refl _

theorem Mirror.Holds.run {w : Mirror α} (h : w.Holds historyBytes) (events : List (MirrorEvent α))
    (hexact : Exact historyBytes
      ((w.pushed.map Prod.snd).sum + (events.map MirrorEvent.bytes).sum)) :
    (w.run historyBytes events).Holds historyBytes := by
  induction events generalizing w with
  | nil => exact h
  | cons event events ih =>
    have hsum := w.step_pushed_sum historyBytes event
    rw [List.map_cons, List.sum_cons] at hexact
    exact ih (h.step event (hexact.mono (by omega))) (hexact.mono (by omega))

def Subscriber.remaining (s : MsgStore α) (pushed : List (α × Nat)) (sub : Subscriber α) : Nat :=
  4 * (pushed.length - sub.next) +
    match sub.phase with
    | .reading => if sub.seen = s.version then 2 else 4
    | .waiting => if sub.seen = s.version then 1 else 3
    | .ended => 0

theorem Subscriber.remaining_le (s : MsgStore α) (pushed : List (α × Nat)) (sub : Subscriber α) :
    sub.remaining s pushed ≤ 4 * (pushed.length - sub.next) + 4 := by
  unfold remaining
  cases sub.phase with
  | reading =>
    simp only
    split <;> omega
  | waiting =>
    simp only
    split <;> omega
  | ended => exact Nat.add_le_add_left (Nat.zero_le _) _

theorem Subscriber.Holds.poll_remaining (hs : MsgStore.Mirrors historyBytes s pushed)
    (h : Subscriber.Holds s pushed sub) (hclosed : s.closed = true)
    (hpoisoned : s.poisoned = false) :
    (sub.poll s).remaining s pushed ≤ sub.remaining s pushed - 1 := by
  obtain ⟨hle, hhistory⟩ := hs.first_eq
  have hbounded := h.bounded
  cases hphase : sub.phase with
  | ended =>
    have hnext := (h.ended hphase).2
    simp only [Subscriber.poll, hphase, Subscriber.remaining]
    omega
  | waiting =>
    simp only [Subscriber.poll, hphase, Subscriber.changed, hclosed]
    by_cases hseen : sub.seen = s.version
    · have hnext := h.awake hphase hseen
      simp only [hseen, ne_eq, not_true, if_false, if_true, Subscriber.remaining]
      omega
    · simp only [hseen, ne_eq, not_false_eq_true, if_true, Subscriber.remaining, hphase]
      simp only [if_false]
      omega
  | reading =>
    simp only [Subscriber.poll, hphase, hpoisoned, Bool.false_eq_true, if_false]
    have hread := h.read hs hphase
    have hbounded' := hread.bounded
    unfold Subscriber.read at *
    split
    · simp only [Subscriber.remaining, hphase]
      split <;> omega
    split
    · rename_i hlt _ entry hentry
      rw [if_neg hlt, hentry] at hbounded'
      have hbounded' : sub.next + 1 ≤ pushed.length := hbounded'
      simp only [Subscriber.remaining, hphase]
      split <;> omega
    · simp only [Subscriber.remaining, hphase]
      split <;> omega

def MirrorEvent.polls (i : Nat) : MirrorEvent α → Bool
  | .poll j => i = j
  | _ => false

theorem Mirror.step_closed (historyBytes : Nat) {w : Mirror α} (hclosed : w.store.closed = true)
    (hsub : w.subscribers[i]? = some sub) (event : MirrorEvent α) :
    (w.step historyBytes event).store = w.store ∧
      (w.step historyBytes event).pushed = w.pushed ∧
      (w.step historyBytes event).subscribers[i]? =
        some (if event.polls i then sub.poll w.store else sub) := by
  have hunreachable : w.store.reachable = false := by simp [MsgStore.reachable, hclosed]
  cases event with
  | push msg bytes =>
    rw [step, if_neg (by simp [hunreachable])]
    exact ⟨rfl, rfl, hsub⟩
  | subscribe includeHistory =>
    rw [step, if_neg (by simp [hunreachable])]
    exact ⟨rfl, rfl, hsub⟩
  | poll j =>
    rw [step]
    by_cases hj : i = j
    · subst hj
      rw [hsub]
      refine ⟨rfl, rfl, ?_⟩
      simp [MirrorEvent.polls, (List.getElem?_eq_some_iff.mp hsub).1]
    · cases hother : w.subscribers[j]? with
      | none => exact ⟨rfl, rfl, by simpa [MirrorEvent.polls, hj] using hsub⟩
      | some other =>
        refine ⟨rfl, rfl, ?_⟩
        simp only [MirrorEvent.polls, hj, decide_false, Bool.false_eq_true, if_false]
        rw [List.getElem?_set_ne (fun heq => hj heq.symm)]
        exact hsub
  | drop =>
    refine ⟨?_, rfl, hsub⟩
    rw [step, ← hclosed]

@[simp] theorem Subscriber.poll_start (s : MsgStore α) (sub : Subscriber α) :
    (sub.poll s).start = sub.start := by
  unfold Subscriber.poll
  cases sub.phase with
  | reading =>
    simp only [Subscriber.read]
    split
    · rfl
    split
    · rfl
    split <;> rfl
  | waiting =>
    simp only [Subscriber.changed]
    split
    · rfl
    split <;> rfl
  | ended => rfl

theorem Mirror.run_closed {w : Mirror α} (hs : w.store.Mirrors historyBytes w.pushed)
    (hclosed : w.store.closed = true) (hpoisoned : w.store.poisoned = false)
    (hsub : w.subscribers[i]? = some sub) (h : sub.Holds w.store w.pushed)
    (events : List (MirrorEvent α)) :
    (w.run historyBytes events).pushed = w.pushed ∧
      ∃ sub', (w.run historyBytes events).subscribers[i]? = some sub' ∧
        sub'.start = sub.start ∧ sub'.Holds w.store w.pushed ∧
        sub'.remaining w.store w.pushed ≤
          sub.remaining w.store w.pushed - (events.filter (MirrorEvent.polls i)).length := by
  induction events generalizing w sub with
  | nil => exact ⟨rfl, sub, hsub, rfl, h, Nat.le_refl _⟩
  | cons event events ih =>
    obtain ⟨hstore, hpushed, hsub'⟩ := step_closed historyBytes hclosed hsub event
    have hs' : (w.step historyBytes event).store.Mirrors historyBytes
        (w.step historyBytes event).pushed := by rwa [hstore, hpushed]
    have hclosed' : (w.step historyBytes event).store.closed = true := by rwa [hstore]
    have hpoisoned' : (w.step historyBytes event).store.poisoned = false := by rwa [hstore]
    cases hpoll : event.polls i with
    | false =>
      rw [hpoll, if_neg Bool.false_ne_true] at hsub'
      have hrest := ih hs' hclosed' hpoisoned' hsub' (by rwa [hstore, hpushed])
      rw [hstore, hpushed] at hrest
      rw [List.filter_cons_of_neg (by simp [hpoll])]
      exact hrest
    | true =>
      rw [hpoll, if_pos rfl] at hsub'
      have hless := h.poll_remaining hs hclosed hpoisoned
      have hrest := ih hs' hclosed' hpoisoned' hsub' (by rw [hstore, hpushed]; exact h.poll hs)
      rw [hstore, hpushed] at hrest
      obtain ⟨hp, sub', hget, hstart, hholds, hremaining⟩ := hrest
      refine ⟨hp, sub', hget, hstart.trans (sub.poll_start w.store), hholds, ?_⟩
      rw [List.filter_cons_of_pos hpoll, List.length_cons]
      omega

theorem Subscriber.remaining_eq_zero (h : Subscriber.remaining s pushed sub = 0) :
    sub.phase = .ended := by
  unfold Subscriber.remaining at h
  cases hphase : sub.phase with
  | reading =>
    rw [hphase] at h
    simp only at h
    split at h <;> omega
  | waiting =>
    rw [hphase] at h
    simp only at h
    split at h <;> omega
  | ended => rfl

/-- The history is the newest messages in order, accounted for and within the budget, and it is
reported complete when nothing has been evicted. Every subscriber has yielded each message from its
start on once and in order, with one error for each gap that counts the messages missed; it waits
only with nothing to read or a value to wake it, and once the store is dropped it yields what is left
and ends. -/
structure Mirror.Faithful (historyBytes : Nat) (w : Mirror α) : Prop where
  suffix : ∃ k ≤ w.pushed.length, w.store.history = numbered k (w.pushed.drop k)
  total : w.store.totalBytes = (w.store.history.map StoredMsg.bytes).sum
  budget : w.store.totalBytes ≤ historyBytes
  complete : w.store.historyComplete = true ↔ w.store.history = numbered 0 w.pushed
  start : ∀ includeHistory, (w.store.subscribe includeHistory).start =
    if includeHistory then 0 else w.pushed.length
  follows : ∀ sub ∈ w.subscribers, Follows w.pushed w.store.first sub.start sub.yielded sub.next ∧
    (sub.phase = .waiting → sub.next < w.pushed.length → sub.seen ≠ w.store.version) ∧
    (sub.phase = .ended → w.store.closed = true ∧ sub.next = w.pushed.length)
  drained : w.store.closed = true → w.pushed.length < maxU64 →
    ∀ i sub, w.subscribers[i]? = some sub →
      ∀ more, 4 * (w.pushed.length - sub.next) + 4 ≤ (more.filter (MirrorEvent.polls i)).length →
        ∃ sub', (w.run historyBytes more).subscribers[i]? = some sub' ∧ sub'.phase = .ended ∧
          Follows w.pushed w.store.first sub.start sub'.yielded w.pushed.length

theorem ring_mirrors (historyBytes : Nat) (events : List (MirrorEvent α))
    (hexact : Exact historyBytes (events.map MirrorEvent.bytes).sum) :
    (Mirror.new.run historyBytes events).Faithful historyBytes := by
  have hw := (Mirror.new_holds historyBytes).run events (by simpa [Mirror.new] using hexact)
  generalize Mirror.new.run historyBytes events = w at hw ⊢
  refine ⟨hw.store.suffix, hw.store.total, hw.store.budget, hw.store.complete_iff, ?_, ?_, ?_⟩
  · intro includeHistory
    rw [← hw.store.next]
    rfl
  · intro sub hsub
    have h := hw.subscribers sub hsub
    refine ⟨h.follows, ?_, h.ended⟩
    intro hwait hlt hseen
    exact absurd (h.awake hwait hseen) (Nat.ne_of_lt hlt)
  · intro hclosed hpushed i sub hsub more hpolls
    have hpoisoned : w.store.poisoned = false := by
      cases hp : w.store.poisoned with
      | true => exact absurd (hw.healthy hp) (Nat.not_le.mpr hpushed)
      | false => rfl
    obtain ⟨-, sub', hget, hstart, hholds, hremaining⟩ := Mirror.run_closed hw.store hclosed
      hpoisoned hsub (hw.subscribers sub (List.mem_of_getElem? hsub)) more
    have hle := sub.remaining_le w.store w.pushed
    have hzero : sub'.remaining w.store w.pushed = 0 := by omega
    have hended := Subscriber.remaining_eq_zero hzero
    have hfollows := hholds.follows
    rw [hstart, (hholds.ended hended).2] at hfollows
    exact ⟨sub', hget, hended, hfollows⟩

namespace Sample

def slowReader : List (MirrorEvent Nat) :=
  [.subscribe true, .push 10 1, .push 11 1, .poll 0, .poll 0, .push 12 1, .push 13 1, .poll 0]

end Sample

theorem ring_mirrors_sample : (Mirror.new.run 1 Sample.slowReader).Faithful 1 :=
  ring_mirrors 1 Sample.slowReader (Or.inl (by decide))

/-- A stream goes on behind a lag error, and may report another; and with the largest budget there
is, sizes that add up to more are no longer accounted for. -/
theorem second_lag_and_saturation :
    (Mirror.new.run 1 Sample.slowReader).subscribers.map Subscriber.yielded =
        [[.error 1, .ok 11, .error 1]] ∧
      (Mirror.new.run maxU64 [.push 0 maxU64, .push 1 maxU64]).store.totalBytes = maxU64 ∧
      ((Mirror.new.run maxU64 [.push 0 maxU64, .push 1 maxU64]).store.history.map
        StoredMsg.bytes).sum = 2 * maxU64 := by
  decide

end Cdesktop
