import Cdesktop.Run
import Mathlib.Data.List.Nodup
import Mathlib.Data.List.Perm.Basic

/-! The breaker over forks of Codex rollouts: a sliding window of reservations. -/

namespace Cdesktop.StorageGuard
set_option autoImplicit true

/-! Instants are nanoseconds from some moment on, durations are nanoseconds. -/

def fromSecs (seconds : Nat) : Nat := seconds * 1000000000

/-- `env_limit`, with what the variable parses to. -/
def envLimit (value : Option Nat) (fallback : Nat) : Nat :=
  (value.filter fun value => value > 0).getD fallback

def defaultMaxForksPerWindow : Nat := 30

structure ForkRateBreaker where
  max : Nat
  window : Nat

/-- `GLOBAL_FORK_BREAKER`: `maxForks` is what `MAX_FORKS_ENV` parses to. -/
def globalForkBreaker (maxForks : Option Nat) : ForkRateBreaker :=
  ⟨envLimit maxForks defaultMaxForksPerWindow, fromSecs 60⟩

abbrev Slot := UInt64 × Nat

structure State where
  events : List Slot
  nextId : UInt64

/-- Saturates where the other instant is later. -/
def durationSince (now earlier : Nat) : Nat := now - earlier

def drainExpired (now : Nat) (window : Nat) : List Slot → List Slot
  | [] => []
  | front :: events =>
    if durationSince now front.2 ≥ window then drainExpired now window events else front :: events

def release (id : UInt64) (s : State) : State :=
  { s with events := s.events.eraseP (·.1 = id) }

def retryAfterSeconds (remaining : Nat) : Nat :=
  max 1 ((remaining + 999999999) / 1000000000)

section
variable (b : ForkRateBreaker)

def reserveAt (now : Nat) (s : State) : Except Nat UInt64 × State :=
  let events := drainExpired now b.window s.events
  if events.length < b.max then
    (.ok s.nextId, ⟨events ++ [(s.nextId, now)], s.nextId + 1⟩)
  else
    let oldest := (events.head?.map (·.2)).getD now
    (.error (b.window - durationSince now oldest), { s with events })

inductive Call where
  /-- `Instant::now()` is read, the lock is not taken yet. -/
  | reading (now : Nat)
  | refused (retryAfterSeconds : Nat)
  | held (slot : Slot)
  | committed (slot : Slot)
  | dropped (slot : Slot)

def Call.granted : Call → Option Slot
  | .held slot | .committed slot | .dropped slot => some slot
  | .reading _ | .refused _ => none

def Call.live : Call → Option Slot
  | .held slot | .committed slot => some slot
  | .reading _ | .refused _ | .dropped _ => none

structure World where
  state : State
  calls : List Call
  /-- What the clock showed last. -/
  clock : Nat

inductive Event where
  | read (now : Nat)
  | take (call : Nat)
  | commit (call : Nat)
  | drop (call : Nat)

def Call.take (now : Nat) : Except Nat UInt64 → Call
  | .ok id => .held (id, now)
  | .error remaining => .refused (retryAfterSeconds remaining)

/-- The clock does not go back, and a reservation is committed or dropped once. -/
def World.step (w : World) : Event → World
  | .read now =>
    if w.clock ≤ now then { w with calls := w.calls ++ [.reading now], clock := now } else w
  | .take call =>
    match w.calls[call]? with
    | some (.reading now) =>
      let (result, state) := reserveAt b now w.state
      { w with state, calls := w.calls.set call (.take now result) }
    | _ => w
  | .commit call =>
    match w.calls[call]? with
    | some (.held slot) => { w with calls := w.calls.set call (.committed slot) }
    | _ => w
  | .drop call =>
    match w.calls[call]? with
    | some (.held slot) =>
      { w with state := release slot.1 w.state, calls := w.calls.set call (.dropped slot) }
    | _ => w

def World.new : World := ⟨⟨[], 0⟩, [], 0⟩

def World.live (w : World) : List Slot := w.calls.filterMap Call.live

def World.Grants (w : World) : Event → Prop
  | .take call => ∃ now id, w.calls[call]? = some (.reading now) ∧
      (reserveAt b now w.state).1 = .ok id
  | _ => False

structure Bounded (events : List Event) : Prop where
  window : ∀ before, before <+: events → ∀ start,
    (Run.run (World.step b) .new before).live.countP
      (fun slot => start ≤ slot.2 ∧ slot.2 < start + b.window) ≤ b.max
  refused : ∀ before call after, events = before ++ .take call :: after →
    let w := Run.run (World.step b) .new before
    ∀ now remaining, w.calls[call]? = some (.reading now) →
      (reserveAt b now w.state).1 = .error remaining →
        (w.step b (.take call)).state = w.state ∧ ∃ seconds,
          (w.step b (.take call)).calls[call]? = some (.refused seconds) ∧
            remaining ≤ fromSecs seconds
  /-- What is dropped gives back its own slot, once, and none besides. -/
  dropped : ∀ before call after, events = before ++ .drop call :: after →
    let w := Run.run (World.step b) .new before
    ∀ slot, w.calls[call]? = some (.held slot) →
      (w.step b (.drop call)).state.events = w.state.events.erase slot ∧
      (w.step b (.drop call)).calls[call]? = some (.dropped slot) ∧
      ∀ other c s, other ≠ call → w.calls[other]? = some c → c.live = some s →
        s ∈ w.state.events → s ∈ (w.step b (.drop call)).state.events
  /-- Who waits as long as a refusal says is admitted, where nobody reserved meanwhile. -/
  retried : ∀ before call later call' after,
    events = before ++ .take call :: later ++ .take call' :: after →
    let w := Run.run (World.step b) .new before
    let w' := Run.run (World.step b) (w.step b (.take call)) later
    ∀ now remaining now', w.calls[call]? = some (.reading now) →
      (reserveAt b now w.state).1 = .error remaining →
      Run.Each (World.step b) (fun w event => ¬w.Grants b event) (w.step b (.take call)) later →
      w'.calls[call']? = some (.reading now') → now + remaining ≤ now' → w'.Grants b (.take call')

def Call.reserved : Call → Option Slot
  | .held slot => some slot
  | _ => none

def World.reading (w : World) (call : Nat) : Option Nat :=
  match w.calls[call]? with
  | some (.reading now) => some now
  | _ => none

/-- The call takes the lock with a reading that is not older than those of the grants before it,
and the id it is given is neither counted nor that of a reservation that is held. -/
def InOrder (w : World) : Event → Prop
  | .take call => ∀ now ∈ w.reading call,
    (∀ slot ∈ w.calls.filterMap Call.granted, slot.2 ≤ now) ∧
      ((reserveAt b now w.state).1.isOk = true →
        (∀ slot ∈ drainExpired now b.window w.state.events, slot.1 ≠ w.state.nextId) ∧
          ∀ slot ∈ w.calls.filterMap Call.reserved, slot.1 ≠ w.state.nextId)
  | _ => True

instance InOrder.decidable (w : World) : ∀ event, Decidable (InOrder b w event)
  | .take call => inferInstanceAs (Decidable (∀ now ∈ w.reading call, _))
  | .read _ | .commit _ | .drop _ => .isTrue trivial

end

theorem envLimit_pos (value : Option Nat) (hfallback : 0 < fallback) : 0 < envLimit value fallback := by
  rw [envLimit]
  cases hvalue : value.filter fun value => value > 0 with
  | none => exact hfallback
  | some limit => exact of_decide_eq_true (Option.filter_eq_some_iff.1 hvalue).2

theorem le_retryAfterSeconds (remaining : Nat) :
    remaining ≤ fromSecs (retryAfterSeconds remaining) := by
  rw [fromSecs, retryAfterSeconds]
  omega

section
variable {b : ForkRateBreaker} {w : World} {j k : Nat}

theorem drainExpired_eq (now : Nat) (hwindow : 0 < b.window) (events : List Slot) :
    ∃ popped, events = popped ++ drainExpired now b.window events ∧
      ∀ e ∈ popped, e.2 + b.window ≤ now := by
  induction events with
  | nil => exact ⟨[], rfl, fun _ h => nomatch h⟩
  | cons front events ih =>
    rw [drainExpired]
    split
    · rename_i hexpired
      obtain ⟨popped, heq, hpopped⟩ := ih
      refine ⟨front :: popped, congrArg (front :: ·) heq, fun e he => ?_⟩
      rcases List.mem_cons.1 he with rfl | he
      · rw [durationSince] at hexpired
        omega
      · exact hpopped e he
    · exact ⟨[], rfl, fun _ h => nomatch h⟩

theorem reserveAt_ok {id : UInt64} (h : (reserveAt b now s).1 = .ok id) :
    id = s.nextId ∧ (drainExpired now b.window s.events).length < b.max ∧
      (reserveAt b now s).2.events = drainExpired now b.window s.events ++ [(id, now)] := by
  rw [reserveAt] at h ⊢
  dsimp only at h ⊢
  split at h
  · rename_i hroom
    cases h
    rw [if_pos hroom]
    exact ⟨rfl, hroom, rfl⟩
  · cases h

theorem reserveAt_error (hwindow : 0 < b.window) (hlength : s.events.length ≤ b.max)
    (h : (reserveAt b now s).1 = .error remaining) :
    (reserveAt b now s).2 = s ∧ s.events.length = b.max ∧
      remaining = b.window - durationSince now ((s.events.head?.map (·.2)).getD now) := by
  obtain ⟨popped, heq, -⟩ := drainExpired_eq (b := b) now hwindow s.events
  rw [reserveAt] at h ⊢
  dsimp only at h ⊢
  split at h
  · cases h
  · rename_i hfull
    have hlengths := congrArg List.length heq
    rw [List.length_append] at hlengths
    have hpopped : popped = [] := List.eq_nil_of_length_eq_zero (by omega)
    rw [hpopped, List.nil_append] at heq
    rw [if_neg hfull, ← heq]
    rw [← heq] at h
    cases h
    exact ⟨rfl, by omega, rfl⟩

structure Inv (b : ForkRateBreaker) (w : World) : Prop where
  length : w.state.events.length ≤ b.max
  /-- A slot that is not counted any more was a window before a grant. -/
  slots : ∃ expired, w.live.Perm (expired ++ w.state.events) ∧
    ∀ e ∈ expired, ∃ g ∈ w.calls.filterMap Call.granted, e.2 + b.window ≤ g.2
  /-- No other slot that is counted has the id of a reservation that is held. -/
  own : ∀ (k : Nat) slot, w.calls[k]? = some (.held slot) → ∀ (j : Nat) c s, j ≠ k →
    w.calls[j]? = some c → c.live = some s → s ∈ w.state.events → s.1 ≠ slot.1
  window : ∀ start,
    w.live.countP (fun slot => start ≤ slot.2 ∧ slot.2 < start + b.window) ≤ b.max

theorem filterMap_set {l : List α} (h : l[k]? = some x) (f : α → Option β) :
    ∃ rest, (l.filterMap f).Perm ((f x).toList ++ rest) ∧
      ∀ y, ((l.set k y).filterMap f).Perm ((f y).toList ++ rest) := by
  induction l generalizing k with
  | nil => cases h
  | cons z l ih =>
    cases k with
    | zero =>
      cases h
      refine ⟨l.filterMap f, ?_, fun y => ?_⟩
      · rw [List.filterMap_cons]
        cases f x <;> exact .refl _
      · rw [List.set_cons_zero, List.filterMap_cons]
        cases f y <;> exact .refl _
    | succ k =>
      obtain ⟨rest, hbefore, hafter⟩ := ih h
      refine ⟨(f z).toList ++ rest, ?_, fun y => ?_⟩
      · rw [List.filterMap_cons]
        cases f z with
        | none => exact hbefore
        | some v => exact (hbefore.cons v).trans List.perm_middle.symm
      · rw [List.set_cons_succ, List.filterMap_cons]
        cases f z with
        | none => exact hafter y
        | some v => exact ((hafter y).cons v).trans List.perm_middle.symm

theorem mem_set {l : List α} (h : (l.set k y)[j]? = some z) : j = k ∧ z = y ∨ j ≠ k ∧ l[j]? = some z := by
  rw [List.getElem?_set] at h
  split at h
  · rename_i hjk
    split at h
    · exact .inl ⟨hjk.symm, (Option.some.inj h).symm⟩
    · cases h
  · exact .inr ⟨fun heq => absurd heq.symm ‹_›, h⟩

theorem granted_set {calls : List Call} (h : calls[k]? = some c)
    (hgranted : ∀ g, c.granted = some g → c'.granted = some g)
    (hg : g ∈ calls.filterMap Call.granted) :
    g ∈ (calls.set k c').filterMap Call.granted := by
  obtain ⟨rest, hbefore, hafter⟩ := filterMap_set h Call.granted
  rw [hbefore.mem_iff, List.mem_append, Option.mem_toList] at hg
  rw [(hafter c').mem_iff, List.mem_append, Option.mem_toList]
  exact hg.imp_left (hgranted g)

theorem Inv.counted (hinv : Inv b w) (hs : s ∈ w.live) :
    s ∈ w.state.events ∨ ∃ g ∈ w.calls.filterMap Call.granted, s.2 + b.window ≤ g.2 := by
  obtain ⟨expired, hperm, hexpired⟩ := hinv.slots
  rcases List.mem_append.1 (hperm.mem_iff.1 hs) with hs | hs
  · exact .inr (hexpired s hs)
  · exact .inl hs

theorem Inv.live_of_counted (hinv : Inv b w) (hs : s ∈ w.state.events) :
    ∃ (j : Nat) (c : Call), w.calls[j]? = some c ∧ c.live = some s := by
  obtain ⟨expired, hperm, -⟩ := hinv.slots
  obtain ⟨c, hc, hlive⟩ := List.mem_filterMap.1 (hperm.mem_iff.2 (List.mem_append_right _ hs))
  obtain ⟨j, hj⟩ := List.mem_iff_getElem?.1 hc
  exact ⟨j, c, hj, hlive⟩

theorem live_of_get {c : Call} (hc : w.calls[j]? = some c) (hlive : c.live = some s) : s ∈ w.live :=
  List.mem_filterMap.2 ⟨c, List.mem_of_getElem? hc, hlive⟩

theorem no_twin (hinv : Inv b w) (hwindow : 0 < b.window) {now : Nat} {id : UInt64} {c : Call}
    (horder : ∀ slot ∈ w.calls.filterMap Call.granted, slot.2 ≤ now)
    (hcounted : ∀ slot ∈ drainExpired now b.window w.state.events, slot.1 ≠ w.state.nextId)
    (hc : w.calls[j]? = some c) (hlive : c.live = some (id, now)) (hid : id = w.state.nextId) :
    False := by
  obtain ⟨popped, heq, hpopped⟩ := drainExpired_eq now hwindow w.state.events
  obtain hs | ⟨g, hg, hle⟩ := hinv.counted (live_of_get hc hlive)
  · rw [heq] at hs
    rcases List.mem_append.1 hs with hs | hs
    · have := hpopped _ hs
      omega
    · exact hcounted _ hs hid
  · have := horder g hg
    omega

theorem Inv.grant (hinv : Inv b w) (hwindow : 0 < b.window) {now : Nat} {id : UInt64}
    (hcall : w.calls[k]? = some (.reading now)) (hok : (reserveAt b now w.state).1 = .ok id)
    (horder : ∀ slot ∈ w.calls.filterMap Call.granted, slot.2 ≤ now)
    (hcounted : ∀ slot ∈ drainExpired now b.window w.state.events, slot.1 ≠ w.state.nextId)
    (hheld : ∀ slot ∈ w.calls.filterMap Call.reserved, slot.1 ≠ w.state.nextId) :
    Inv b { w with
      state := (reserveAt b now w.state).2, calls := w.calls.set k (.held (id, now)) } := by
  obtain ⟨hid, hroom, hevents⟩ := reserveAt_ok hok
  obtain ⟨popped, heq, hpopped⟩ := drainExpired_eq now hwindow w.state.events
  obtain ⟨expired, hperm, hexpired⟩ := hinv.slots
  obtain ⟨rest, hbefore, hafter⟩ := filterMap_set hcall Call.live
  have hlive : ((w.calls.set k (.held (id, now))).filterMap Call.live).Perm
      ((id, now) :: w.live) := (hafter _).trans (hbefore.symm.cons (id, now))
  have hslots : ((w.calls.set k (.held (id, now))).filterMap Call.live).Perm
      (expired ++ popped ++ (drainExpired now b.window w.state.events ++ [(id, now)])) := by
    apply hlive.trans
    rw [← List.append_assoc, List.append_assoc expired, ← heq]
    exact (hperm.cons _).trans (List.perm_append_singleton _ _).symm
  have hnew : (id, now) ∈ (w.calls.set k (.held (id, now))).filterMap Call.granted :=
    List.mem_filterMap.2 ⟨_, List.mem_set (List.getElem?_eq_some_iff.1 hcall).1 _, rfl⟩
  have hold : ∀ e ∈ expired ++ popped, e.2 + b.window ≤ now := by
    intro e he
    rcases List.mem_append.1 he with he | he
    · obtain ⟨g, hg, hle⟩ := hexpired e he
      exact Nat.le_trans hle (horder g hg)
    · exact hpopped e he
  constructor
  · rw [hevents, List.length_append]
    exact hroom
  · rw [hevents]
    exact ⟨expired ++ popped, hslots, fun e he => ⟨_, hnew, hold e he⟩⟩
  · rw [hevents]
    intro k' slot hk' j c s hne hj hc hs
    have hdrained : ∀ e ∈ drainExpired now b.window w.state.events, e ∈ w.state.events := by
      intro e he
      rw [heq]
      exact List.mem_append_right _ he
    rcases mem_set hk' with ⟨rfl, hself⟩ | ⟨hk, hk'⟩
    · cases hself
      rcases mem_set hj with ⟨rfl, -⟩ | ⟨-, hj⟩
      · exact (hne rfl).elim
      · rw [hid]
        rcases List.mem_append.1 hs with hs | hs
        · exact hcounted s hs
        · exact (no_twin hinv hwindow horder hcounted hj (List.mem_singleton.1 hs ▸ hc) hid).elim
    · have hslot := hheld slot (List.mem_filterMap.2 ⟨_, List.mem_of_getElem? hk', rfl⟩)
      rcases mem_set hj with ⟨rfl, rfl⟩ | ⟨-, hj⟩
      · cases hc
        rw [hid]
        exact hslot.symm
      · rcases List.mem_append.1 hs with hs | hs
        · exact hinv.own k' slot hk' j c s hne hj hc (hdrained s hs)
        · rw [List.mem_singleton.1 hs, hid]
          exact hslot.symm
  · intro start
    change ((w.calls.set k (.held (id, now))).filterMap Call.live).countP _ ≤ _
    by_cases hin : start ≤ now ∧ now < start + b.window
    · rw [hslots.countP_eq, List.countP_append]
      have hnone : (expired ++ popped).countP
          (fun slot => start ≤ slot.2 ∧ slot.2 < start + b.window) = 0 := by
        apply List.countP_eq_zero.2
        intro e he
        have := hold e he
        rw [decide_eq_true_iff]
        omega
      rw [hnone, Nat.zero_add]
      apply Nat.le_trans List.countP_le_length
      rw [List.length_append]
      exact hroom
    · rw [hlive.countP_eq, List.countP_cons_of_neg (by rwa [decide_eq_true_iff])]
      exact hinv.window start

theorem Inv.keeps (hinv : Inv b w) {c c' : Call} (hcall : w.calls[k]? = some c)
    (hlive : c'.live = c.live) (hgranted : ∀ g, c.granted = some g → c'.granted = some g)
    (hheld : ∀ slot, c' ≠ .held slot) : Inv b { w with calls := w.calls.set k c' } := by
  obtain ⟨rest, hbefore, hafter⟩ := filterMap_set hcall Call.live
  have hperm : ((w.calls.set k c').filterMap Call.live).Perm w.live := by
    apply (hafter c').trans
    rw [hlive]
    exact hbefore.symm
  obtain ⟨expired, hslots, hexpired⟩ := hinv.slots
  refine ⟨hinv.length, ⟨expired, hperm.trans hslots, fun e he => ?_⟩, ?_, fun start => ?_⟩
  · obtain ⟨g, hg, hle⟩ := hexpired e he
    exact ⟨g, granted_set hcall hgranted hg, hle⟩
  · intro k' slot hk' j d s hne hj hd hs
    rcases mem_set hk' with ⟨-, heq⟩ | ⟨-, hk'⟩
    · exact (hheld slot heq.symm).elim
    · rcases mem_set hj with ⟨hjk, hdc⟩ | ⟨-, hj⟩
      · rw [hdc, hlive] at hd
        exact hinv.own k' slot hk' j c s hne (hjk ▸ hcall) hd hs
      · exact hinv.own k' slot hk' j d s hne hj hd hs
  · change ((w.calls.set k c').filterMap Call.live).countP _ ≤ _
    rw [hperm.countP_eq]
    exact hinv.window start

theorem eraseP_congr {p q : α → Bool} {l : List α} (h : ∀ x ∈ l, p x = q x) :
    l.eraseP p = l.eraseP q := by
  induction l with
  | nil => rfl
  | cons x l ih =>
    rw [List.eraseP_cons, List.eraseP_cons, h x List.mem_cons_self,
      ih fun y hy => h y (List.mem_cons_of_mem x hy)]

theorem Inv.release_eq (hinv : Inv b w) (hcall : w.calls[k]? = some (.held slot)) :
    (release slot.1 w.state).events = w.state.events.erase slot := by
  have hown : ∀ e ∈ w.state.events, (e.1 = slot.1 ↔ e = slot) := by
    intro e he
    refine ⟨fun hid => ?_, congrArg Prod.fst⟩
    obtain ⟨j, c, hj, hlive⟩ := hinv.live_of_counted he
    by_cases hjk : j = k
    · rw [hjk, hcall] at hj
      cases hj
      exact (Option.some.inj hlive).symm
    · exact (hinv.own k slot hcall j c e hjk hj hlive he hid).elim
  rw [release, List.erase_eq_eraseP']
  apply eraseP_congr
  intro e he
  rw [Bool.eq_iff_iff, decide_eq_true_iff, beq_iff_eq]
  exact hown e he

theorem Inv.drop (hinv : Inv b w) (hcall : w.calls[k]? = some (.held slot)) :
    Inv b { w with state := release slot.1 w.state, calls := w.calls.set k (.dropped slot) } := by
  obtain ⟨rest, hbefore, hafter⟩ := filterMap_set hcall Call.live
  have hrest : ((w.calls.set k (.dropped slot)).filterMap Call.live).Perm rest := hafter _
  have hperm : w.live.Perm
      (slot :: (w.calls.set k (.dropped slot)).filterMap Call.live) :=
    hbefore.trans (hrest.symm.cons slot)
  obtain ⟨expired, hslots, hexpired⟩ := hinv.slots
  have hgranted : ∀ e ∈ expired,
      ∃ g ∈ (w.calls.set k (.dropped slot)).filterMap Call.granted, e.2 + b.window ≤ g.2 := by
    intro e he
    obtain ⟨g, hg, hle⟩ := hexpired e he
    exact ⟨g, granted_set hcall (fun _ h => h) hg, hle⟩
  have hsub : (w.state.events.erase slot).Sublist w.state.events := List.erase_sublist
  refine ⟨?_, ?_, ?_, fun start => ?_⟩
  · rw [hinv.release_eq hcall]
    exact Nat.le_trans hsub.length_le hinv.length
  · rw [hinv.release_eq hcall]
    have hall := hperm.symm.trans hslots
    by_cases hcounted : slot ∈ w.state.events
    · refine ⟨expired, ?_, hgranted⟩
      have hmove := (List.perm_cons_erase hcounted).append_left expired
      exact (hall.trans (hmove.trans List.perm_middle)).cons_inv
    · have hmem : slot ∈ expired :=
        (List.mem_append.1 (hall.mem_iff.1 List.mem_cons_self)).resolve_right hcounted
      refine ⟨expired.erase slot, ?_, fun e he => hgranted e (List.mem_of_mem_erase he)⟩
      rw [List.erase_of_not_mem hcounted]
      exact (hall.trans ((List.perm_cons_erase hmem).append_right _)).cons_inv
  · rw [hinv.release_eq hcall]
    intro k' slot' hk' j c s hne hj hc hs
    rcases mem_set hk' with ⟨-, heq⟩ | ⟨-, hk'⟩
    · cases heq
    · rcases mem_set hj with ⟨-, hcd⟩ | ⟨-, hj⟩
      · rw [hcd] at hc
        cases hc
      · exact hinv.own k' slot' hk' j c s hne hj hc (hsub.subset hs)
  · change ((w.calls.set k (.dropped slot)).filterMap Call.live).countP _ ≤ _
    apply Nat.le_trans _ (hinv.window start)
    rw [hperm.countP_eq]
    exact (List.sublist_cons_self slot _).countP_le

theorem Inv.read (hinv : Inv b w) (now : Nat) :
    Inv b { w with calls := w.calls ++ [.reading now], clock := now } := by
  have hsame (f : Call → Option Slot) (hf : f (.reading now) = none) :
      (w.calls ++ [Call.reading now]).filterMap f = w.calls.filterMap f := by
    rw [List.filterMap_append, List.filterMap_cons, hf]
    exact List.append_nil _
  have hget : ∀ {j : Nat} {c : Call}, (w.calls ++ [Call.reading now])[j]? = some c →
      w.calls[j]? = some c ∨ c = .reading now := by
    intro j c hj
    rcases Nat.lt_or_ge j w.calls.length with hlt | hge
    · rw [List.getElem?_append_left hlt] at hj
      exact .inl hj
    · rw [List.getElem?_append_right hge] at hj
      exact .inr (List.mem_singleton.1 (List.mem_of_getElem? hj))
  refine ⟨hinv.length, ?_, ?_, fun start => ?_⟩
  · rw [World.live, hsame Call.live rfl, hsame Call.granted rfl]
    exact hinv.slots
  · intro k slot hk j c s hne hj hc hs
    obtain hk | hk := hget hk
    · obtain hj | rfl := hget hj
      · exact hinv.own k slot hk j c s hne hj hc hs
      · cases hc
    · cases hk
  · rw [World.live, hsame Call.live rfl]
    exact hinv.window start

theorem Inv.step (hinv : Inv b w) (hwindow : 0 < b.window) {event : Event}
    (horder : InOrder b w event) : Inv b (w.step b event) := by
  cases event with
  | read now =>
    rw [World.step]
    split
    · exact hinv.read now
    · exact hinv
  | take call =>
    rw [World.step]
    split
    · rename_i now hcall
      have hreading : now ∈ w.reading call := by
        rw [World.reading, hcall]
        rfl
      obtain ⟨hgranted, hid⟩ := horder now hreading
      cases hresult : (reserveAt b now w.state).1 with
      | ok id =>
        obtain ⟨hcounted, hheld⟩ := hid (by rw [hresult]; rfl)
        have hgrant := hinv.grant hwindow hcall hresult hgranted hcounted hheld
        dsimp only
        rw [hresult]
        exact hgrant
      | error remaining =>
        have hsame := (reserveAt_error hwindow hinv.length hresult).1
        dsimp only
        rw [hresult, hsame]
        exact hinv.keeps hcall rfl nofun nofun
    · exact hinv
  | commit call =>
    rw [World.step]
    split
    · rename_i slot hcall
      exact hinv.keeps hcall rfl (fun _ h => h) nofun
    · exact hinv
  | drop call =>
    rw [World.step]
    split
    · rename_i slot hcall
      exact hinv.drop hcall
    · exact hinv

theorem Inv.new : Inv b .new :=
  ⟨Nat.zero_le _, ⟨[], .refl _, fun _ h => (nomatch h)⟩, fun _ _ h => (nomatch h),
    fun _ => Nat.zero_le _⟩

theorem step_sublist (hwindow : 0 < b.window) {event : Event} (hno : ¬w.Grants b event) :
    (w.step b event).state.events.Sublist w.state.events := by
  cases event with
  | read now =>
    rw [World.step]
    split <;> exact .refl _
  | take call =>
    rw [World.step]
    split
    · rename_i now hcall
      cases hresult : (reserveAt b now w.state).1 with
      | ok id => exact (hno ⟨now, id, hcall, hresult⟩).elim
      | error remaining =>
        obtain ⟨popped, heq, -⟩ := drainExpired_eq now hwindow w.state.events
        have hdrained : (reserveAt b now w.state).2.events =
            drainExpired now b.window w.state.events := by
          rw [reserveAt] at hresult ⊢
          dsimp only at hresult ⊢
          split at hresult
          · cases hresult
          · rw [if_neg ‹_›]
        dsimp only
        rw [hdrained]
        conv_rhs => rw [heq]
        exact List.sublist_append_right _ _
    · exact .refl _
  | commit call =>
    rw [World.step]
    split <;> exact .refl _
  | drop call =>
    rw [World.step]
    split
    · exact List.eraseP_sublist
    · exact .refl _

theorem run_sublist (hwindow : 0 < b.window) {later : List Event}
    (hno : Run.Each (World.step b) (fun w event => ¬w.Grants b event) w later) :
    (Run.run (World.step b) w later).state.events.Sublist w.state.events := by
  induction later generalizing w with
  | nil => exact .refl _
  | cons event later ih => exact (ih hno.2).trans (step_sublist hwindow hno.1)

theorem reserveAt_retry (hmax : 0 < b.max) (hwindow : 0 < b.window) {s s' : State}
    (hlength : s.events.length ≤ b.max) (horder : ∀ slot ∈ s.events, slot.2 ≤ now)
    (hrefused : (reserveAt b now s).1 = .error remaining) (hsub : s'.events.Sublist s.events)
    (hnow : now + remaining ≤ now') : ∃ id, (reserveAt b now' s').1 = .ok id := by
  obtain ⟨-, hfull, hremaining⟩ := reserveAt_error hwindow hlength hrefused
  have hroom : (drainExpired now' b.window s'.events).length < b.max := by
    obtain ⟨popped, heq, -⟩ := drainExpired_eq now' hwindow s'.events
    have hdrained := congrArg List.length heq
    rw [List.length_append] at hdrained
    by_cases hfew : s'.events.length < b.max
    · omega
    · have hsame := hsub.eq_of_length_le (by omega)
      cases hevents : s.events with
      | nil =>
        rw [hevents] at hfull
        exact absurd hfull (Nat.ne_of_lt hmax)
      | cons front events =>
        have hfront := horder front (hevents ▸ List.mem_cons_self)
        rw [hevents] at hremaining hfull
        rw [List.head?_cons, Option.map_some, Option.getD_some, durationSince] at hremaining
        rw [hsame, hevents, drainExpired, if_pos (by rw [durationSince]; omega)]
        obtain ⟨popped', heq', -⟩ := drainExpired_eq now' hwindow events
        have hlength' := congrArg List.length heq'
        rw [List.length_append] at hlength'
        rw [List.length_cons] at hfull
        omega
  refine ⟨s'.nextId, ?_⟩
  rw [reserveAt]
  dsimp only
  rw [if_pos hroom]

theorem run_inv (hwindow : 0 < b.window)
    (horder : Run.Each (World.step b) (InOrder b) .new events) :
    Inv b (Run.run (World.step b) .new events) :=
  Run.Each.preserves (fun _ _ hinv hok => hinv.step hwindow hok) Inv.new horder

theorem reading_eq (hcall : w.calls[k]? = some (.reading now)) : w.reading k = some now := by
  rw [World.reading, hcall]

theorem step_take (hcall : w.calls[k]? = some (.reading now)) : w.step b (.take k) =
    { w with
      state := (reserveAt b now w.state).2
      calls := w.calls.set k (.take now (reserveAt b now w.state).1) } := by
  rw [World.step, hcall]

theorem step_drop (hcall : w.calls[k]? = some (.held slot)) : w.step b (.drop k) =
    { w with state := release slot.1 w.state, calls := w.calls.set k (.dropped slot) } := by
  rw [World.step, hcall]

theorem bounded_of_inOrder (hmax : 0 < b.max) (hwindow : 0 < b.window)
    (horder : Run.Each (World.step b) (InOrder b) .new events) : Bounded b events := by
  have hbefore : ∀ {before after}, events = before ++ after →
      Inv b (Run.run (World.step b) .new before) := by
    rintro before after rfl
    exact run_inv hwindow horder.append.1
  refine ⟨?_, ?_, ?_, ?_⟩
  · rintro before ⟨after, heq⟩ start
    exact (hbefore heq.symm).window start
  · intro before call after heq w now remaining hcall hrefused
    rw [step_take hcall]
    refine ⟨(reserveAt_error hwindow (hbefore heq).length hrefused).1, _, ?_,
      le_retryAfterSeconds remaining⟩
    rw [hrefused, List.getElem?_set_self (List.getElem?_eq_some_iff.mp hcall).1]
    rfl
  · intro before call after heq w slot hcall
    have hinv := hbefore heq
    have hevents := hinv.release_eq hcall
    rw [step_drop hcall]
    refine ⟨hevents, ?_, fun other c s hne hother hlive hs => ?_⟩
    · exact List.getElem?_set_self (List.getElem?_eq_some_iff.1 hcall).1
    · have hid := hinv.own call slot hcall other c s hne hother hlive hs
      dsimp only
      rw [hevents]
      exact (List.mem_erase_of_ne fun hsame => hid (congrArg Prod.fst hsame)).2 hs
  · intro before call later call' after heq w w' now remaining now' hcall hrefused hno hcall' hnow
    have heq' : events = before ++ .take call :: (later ++ .take call' :: after) := by
      rw [heq, List.append_assoc, List.cons_append]
    have hinv := hbefore heq'
    have hinorder : InOrder b w (.take call) := by
      rw [heq'] at horder
      exact horder.append.2.1
    have hgranted := (hinorder now (reading_eq hcall)).1
    have hreadings : ∀ slot ∈ w.state.events, slot.2 ≤ now := by
      intro slot hslot
      obtain ⟨j, c, hj, hlive⟩ := hinv.live_of_counted hslot
      apply hgranted slot (List.mem_filterMap.2 ⟨c, List.mem_of_getElem? hj, ?_⟩)
      cases c with
      | held | committed => exact hlive
      | _ => cases hlive
    have hsub : w'.state.events.Sublist w.state.events := by
      apply (run_sublist hwindow hno).trans
      rw [step_take hcall, (reserveAt_error hwindow hinv.length hrefused).1]
    obtain ⟨id, hid⟩ :=
      reserveAt_retry hmax hwindow hinv.length hreadings hrefused hsub hnow
    exact ⟨now', id, hcall', hid⟩

end

/-- The breaker of all sessions. -/
theorem globalForkBreaker_bounded (maxForks : Option Nat)
    (horder : Run.Each (World.step (globalForkBreaker maxForks))
      (InOrder (globalForkBreaker maxForks)) .new events) :
    Bounded (globalForkBreaker maxForks) events :=
  bounded_of_inOrder (envLimit_pos maxForks (by decide)) (show 0 < fromSecs 60 by decide) horder

/-- A burst of two, a refusal, and a reserve that waited. -/
theorem globalForkBreaker_bounded_sample : Bounded (globalForkBreaker (some 2))
    [.read 0, .take 0, .read 5, .take 1, .commit 0, .read 7, .take 2, .read (fromSecs 60), .take 3,
      .drop 1] := by
  apply globalForkBreaker_bounded
  decide

/-- A thread reads the clock a second before the window of two forks ends and takes the lock after
it: another was admitted, and three forks are in the window. -/
theorem globalForkBreaker_not_bounded :
    ¬∀ maxForks events, Bounded (globalForkBreaker maxForks) events := by
  intro h
  have hwindow := (h (some 2) [.read 0, .take 0, .read 0, .take 1, .commit 0, .commit 1,
    .read (fromSecs 59), .read (fromSecs 60), .take 3, .take 2]).window _ (List.prefix_refl _) 0
  revert hwindow
  decide

end Cdesktop.StorageGuard
