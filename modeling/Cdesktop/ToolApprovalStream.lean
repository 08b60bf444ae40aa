import Cdesktop.ToolApprovalToken

namespace Cdesktop.ToolApproval
set_option autoImplicit true

/-- The map of the pending approvals is in shards, which are read one after the other. -/
structure Sharding where
  shards : Nat
  shardOf : String → Fin shards

/-- What the broadcast channel keeps for a receiver that is behind. -/
def patchCapacity : Nat := 64

/-- The pending approvals, as far as they are read: for a new stream, or for one that lagged and
goes on at a position. -/
structure Reading where
  shard : Nat
  infos : String → Option ApprovalInfo
  position : Option Nat
  /-- How the approvals were when they were read; the statements need it and the stream does not. -/
  was : String → Approval

inductive PatchStream where
  | absent
  | reading (r : Reading)
  | live (position : Nat)

/-- The service and one stream of it, with all that was broadcast and all that the stream yielded. -/
structure Service where
  approvals : String → Approval
  patches : List ApprovalPatch
  stream : PatchStream
  yielded : List ApprovalPatch

def Service.new : Service :=
  { approvals := fun _ => .new
    patches := []
    stream := .absent
    yielded := [] }

inductive ServiceEvent where
  | approval (id : String) (event : ApprovalEvent)
  | patchStream
  | pendingInfos
  | subscribe
  | next

def Service.pendingInfos (c : Sharding) (w : Service) (r : Reading) : Reading :=
  { r with
    shard := r.shard + 1
    infos := fun id =>
      if (c.shardOf id : Nat) = r.shard then (w.approvals id).pending.map (·.info id)
      else r.infos id
    was := fun id => if (c.shardOf id : Nat) = r.shard then w.approvals id else r.was id }

def Service.read (w : Service) (position : Option Nat) : Service :=
  { w with stream := .reading ⟨0, fun _ => none, position, w.approvals⟩ }

def Service.step (c : Sharding) (w : Service) : ServiceEvent → Service
  | .approval id event =>
    let next := (w.approvals id).step id event
    { w with
      approvals := Function.update w.approvals id next.1
      patches := w.patches ++ next.2 }
  | .patchStream =>
    match w.stream with
    | .absent => w.read none
    | _ => w
  | .pendingInfos =>
    match w.stream with
    | .reading r =>
      if r.shard < c.shards then { w with stream := .reading (w.pendingInfos c r) } else w
    | _ => w
  | .subscribe =>
    match w.stream with
    | .reading r =>
      if r.shard < c.shards then w
      else
        { w with
          -- a new stream subscribes when it has read, one that lagged is subscribed already
          stream := .live (r.position.getD w.patches.length)
          yielded := w.yielded ++ [.snapshot r.infos] }
    | _ => w
  | .next =>
    match w.stream with
    | .live position =>
      if patchCapacity < w.patches.length - position then
        w.read (some (w.patches.length - patchCapacity))
      else
        match w.patches[position]? with
        | some patch =>
          { w with stream := .live (position + 1), yielded := w.yielded ++ [patch] }
        | none => w
    | _ => w

def Service.run (c : Sharding) (w : Service) (events : List ServiceEvent) : Service :=
  events.foldl (fun w event => w.step c event) w

def Approval.taken (a : Approval) : Prop :=
  a.creation ≠ .absent ∧ a.pending = none ∧ ¬ a.heldInVain

def Approval.ChangedSince (a was : Approval) : Prop :=
  (was.creation = .absent ∧ a.creation ≠ .absent) ∨ (¬ was.taken ∧ a.taken)

/-- Nothing is missed on the way: the resolved patch of an approval comes after its created patch,
no shard is read while a call that is being turned away has an approval of it, and whatever changed
between the reading and the subscription is still to be sent. -/
def Service.Orderly (c : Sharding) (w : Service) : ServiceEvent → Prop
  | .approval id event => (w.approvals id).InOrder event
  | .pendingInfos => ∀ r, w.stream = .reading r →
      ∀ id, (c.shardOf id : Nat) = r.shard → ¬ (w.approvals id).heldInVain
  | .subscribe => ∀ r, w.stream = .reading r → r.position = none →
      ∀ id, (w.approvals id).ChangedSince (r.was id) → (w.approvals id).outstanding
  | _ => True

def Service.OrderlyRun (c : Sharding) : Service → List ServiceEvent → Prop
  | _, [] => True
  | w, event :: events => w.Orderly c event ∧ OrderlyRun c (w.step c event) events

def Service.Knows (c : Sharding) (w : Service) (id : String) (τ : Token) : Prop :=
  match w.stream with
  | .absent => True
  | .reading r => (c.shardOf id : Nat) < r.shard →
    match r.position with
    | none => ∃ τ', (r.was id).At τ' ∧ τ'.pending = τ'.open ∧
        r.infos id = τ'.open.map (·.info id) ∧ (r.was id).Keeps (w.approvals id) ∧
        (τ'.taken = true → τ.taken = true)
    | some position => lastAbout id (w.patches.drop position) = none →
        ¬ (w.approvals id).outstanding → r.infos id = τ.open.map (·.info id)
  | .live position => lastAbout id (w.patches.drop position) = none →
      ¬ (w.approvals id).outstanding →
        (lastAbout id w.yielded).getD none = τ.open.map (·.info id)

structure Service.Sound (c : Sharding) (w : Service) : Prop where
  approvals : ∀ id, ∃ τ, (w.approvals id).At τ ∧
    (lastAbout id w.patches).getD none = (w.approvals id).told id τ ∧ w.Knows c id τ
  position : ∀ position, (w.stream = .live position ∨
    ∃ r, w.stream = .reading r ∧ r.position = some position) → position ≤ w.patches.length

theorem Approval.At.heldInVain_iff (h : Approval.At a τ) :
    a.heldInVain ↔ ∃ t p, τ = .rejected t p := by
  constructor
  · rintro ⟨t, task, p, e, htask, hphase⟩
    have htoken : a.token (.respond t) = some (.rejected t p) := by
      simp [Approval.token, htask, hphase, RespondPhase.token]
    exact ⟨t, p, (h.of_token htoken).1⟩
  · rintro ⟨t, p, rfl⟩
    have htoken : a.token (.respond t) = some (.rejected t p) := by simp [h.token, Token.holder]
    obtain ⟨task, htask, hphase⟩ := Option.bind_eq_some_iff.mp htoken
    cases hrejecting : task.phase with
    | rejecting q e => exact ⟨t, task, q, e, htask, hrejecting⟩
    | _ => simp [hrejecting, RespondPhase.token] at hphase

theorem Approval.At.pending_eq_open (h : Approval.At a τ) (hheld : ¬ a.heldInVain) :
    τ.pending = τ.open := by
  cases τ with
  | rejected t p => exact absurd (h.heldInVain_iff.mpr ⟨t, p, rfl⟩) hheld
  | uncreated => rfl
  | inMap p => rfl
  | unsent taker => rfl
  | gone => rfl

theorem Approval.At.taken_iff (h : Approval.At a τ) : a.taken ↔ τ.taken = true := by
  rw [taken, h.heldInVain_iff, h.pending, Ne, h.created]
  cases τ <;> simp [Token.pending, Token.taken]

theorem Approval.At.open_of_unchanged (h : Approval.At a τ) (hwas : Approval.At was τ')
    (hkeeps : was.Keeps a) (htaken : τ'.taken = true → τ.taken = true)
    (hunchanged : ¬ a.ChangedSince was) (hmap : τ'.pending = τ'.open) : τ'.open = τ.open := by
  rw [ChangedSince, not_or, not_and, not_not, not_and, h.taken_iff, hwas.taken_iff] at hunchanged
  cases τ' with
  | uncreated =>
    obtain rfl := h.created.mp (hunchanged.1 (hwas.created.mpr rfl))
    rfl
  | inMap p =>
    have happroval := hkeeps.1 p (hwas.approval p rfl)
    have hopen := hunchanged.2 (by simp [Token.taken])
    cases τ with
    | uncreated =>
      rw [h.created.mpr rfl] at happroval
      cases happroval
    | inMap q => exact happroval.symm.trans (h.approval q rfl)
    | rejected t q => exact happroval.symm.trans (h.approval q rfl)
    | unsent taker => exact absurd rfl hopen
    | gone => exact absurd rfl hopen
  | rejected t p => cases hmap
  | unsent taker =>
    cases τ with
    | unsent taker' => rfl
    | gone => rfl
    | uncreated => cases htaken rfl
    | inMap q => cases htaken rfl
    | rejected t q => cases htaken rfl
  | gone =>
    cases τ with
    | unsent taker' => rfl
    | gone => rfl
    | uncreated => cases htaken rfl
    | inMap q => cases htaken rfl
    | rejected t q => cases htaken rfl

namespace Service

theorem new_sound (c : Sharding) : new.Sound c where
  approvals := fun id => ⟨.uncreated, Approval.new_at, rfl, trivial⟩
  position := by
    rintro position (hlive | ⟨r, hreading, -⟩)
    · cases hlive
    · cases hreading

theorem drop_append (w : Service) (hposition : position ≤ w.patches.length)
    (sent : List ApprovalPatch) :
    (w.patches ++ sent).drop position = w.patches.drop position ++ sent :=
  List.drop_append_of_le_length hposition

theorem Knows.other {w' : Service} (h : Knows c w id' τ)
    (hposition : ∀ position, (w.stream = .live position ∨
      ∃ r, w.stream = .reading r ∧ r.position = some position) → position ≤ w.patches.length)
    (hstream : w'.stream = w.stream) (hyielded : w'.yielded = w.yielded)
    (hpatches : w'.patches = w.patches ++ sent) (hsent : lastAbout id' sent = none)
    (happroval : w'.approvals id' = w.approvals id') : w'.Knows c id' τ := by
  have hlast : ∀ position, position ≤ w.patches.length →
      lastAbout id' (w'.patches.drop position) = lastAbout id' (w.patches.drop position) := by
    intro position hle
    rw [hpatches, w.drop_append hle, lastAbout_append, hsent, Option.none_or]
  rw [Knows] at h ⊢
  rw [hstream, hyielded, happroval]
  cases hs : w.stream with
  | absent => trivial
  | live position =>
    rw [hs] at h
    show lastAbout id' (w'.patches.drop position) = none → _
    rw [hlast position (hposition position (Or.inl hs))]
    exact h
  | reading r =>
    rw [hs] at h
    intro hread
    specialize h hread
    cases hr : r.position with
    | none =>
      rw [hr] at h
      exact h
    | some position =>
      rw [hr] at h
      show lastAbout id' (w'.patches.drop position) = none → _
      rw [hlast position (hposition position (Or.inr ⟨r, hs, hr⟩))]
      exact h

theorem Knows.approval {id : String} {w' : Service} (h : Knows c w id τ)
    (htells : Approval.Tells id (w.approvals id) τ (w'.approvals id) τ' sent)
    (htaken : τ.taken = true → τ'.taken = true) (hkeeps : (w.approvals id).Keeps (w'.approvals id))
    (hposition : ∀ position, (w.stream = .live position ∨
      ∃ r, w.stream = .reading r ∧ r.position = some position) → position ≤ w.patches.length)
    (hstream : w'.stream = w.stream) (hyielded : w'.yielded = w.yielded)
    (hpatches : w'.patches = w.patches ++ sent) : w'.Knows c id τ' := by
  -- what the stream had right stays right until a patch is sent
  have hopen : ∀ position (i : Option ApprovalInfo), position ≤ w.patches.length →
      (lastAbout id (w.patches.drop position) = none → ¬ (w.approvals id).outstanding →
        i = τ.open.map (·.info id)) →
      lastAbout id (w'.patches.drop position) = none → ¬ (w'.approvals id).outstanding →
        i = τ'.open.map (·.info id) := by
    intro position i hle hbefore hlast hsent
    rw [hpatches, w.drop_append hle, lastAbout_append] at hlast
    rcases htells with ⟨rfl, -, hout | ⟨hsame, hout⟩⟩ | ⟨patch, rfl, habout, -⟩
    · exact absurd hout hsent
    · rw [hsame]
      exact hbefore (by simpa using hlast) hout
    · simp [habout] at hlast
  rw [Knows] at h ⊢
  rw [hstream, hyielded]
  cases hs : w.stream with
  | absent => trivial
  | live position =>
    rw [hs] at h
    exact hopen position _ (hposition position (Or.inl hs)) h
  | reading r =>
    rw [hs] at h
    intro hread
    specialize h hread
    cases hr : r.position with
    | none =>
      rw [hr] at h
      obtain ⟨τ₀, hwas, hmap, hinfos, hkeeps₀, htaken₀⟩ := h
      exact ⟨τ₀, hwas, hmap, hinfos, hkeeps₀.trans hkeeps, fun h₀ => htaken (htaken₀ h₀)⟩
    | some position =>
      rw [hr] at h
      exact hopen position _ (hposition position (Or.inr ⟨r, hs, hr⟩)) h

section
variable (h : Sound c w)
include h

theorem Sound.approval (id : String) (event : ApprovalEvent)
    (horder : (w.approvals id).InOrder event) : (w.step c (.approval id event)).Sound c := by
  obtain ⟨τ, hat, htold, hknows⟩ := h.approvals id
  obtain ⟨τ', hat', htells, htaken⟩ := hat.step id horder
  have hkeeps := Approval.Keeps.step id (w.approvals id) event
  have hpatches : (w.step c (.approval id event)).patches =
      w.patches ++ ((w.approvals id).step id event).2 := rfl
  constructor
  · intro id'
    by_cases hid : id' = id
    · subst hid
      have hself : (w.step c (.approval id' event)).approvals id' =
          ((w.approvals id').step id' event).1 := Function.update_self ..
      rw [← hself] at hat' htells hkeeps
      refine ⟨τ', hat', ?_, hknows.approval htells htaken hkeeps h.position rfl rfl hpatches⟩
      rw [hpatches, lastAbout_append]
      rcases htells with ⟨hsent, hsame, -⟩ | ⟨patch, hsent, habout, -⟩
      · rw [hsent, hsame]
        exact htold
      · rw [hsent, lastAbout_singleton, habout]
        rfl
    · have hother : (w.step c (.approval id event)).approvals id' = w.approvals id' :=
        Function.update_of_ne hid _ _
      have hsent : lastAbout id' ((w.approvals id).step id event).2 = none := by
        rcases htells with ⟨hsent, -, -⟩ | ⟨patch, hsent, -, habout⟩
        · rw [hsent]
          rfl
        · rw [hsent, lastAbout_singleton]
          exact habout id' hid
      obtain ⟨τ₁, hat₁, htold₁, hknows₁⟩ := h.approvals id'
      refine ⟨τ₁, hother ▸ hat₁, ?_,
        hknows₁.other h.position rfl rfl hpatches hsent hother⟩
      rw [hpatches, lastAbout_append, hsent, Option.none_or, hother]
      exact htold₁
  · intro position hposition
    rw [hpatches, List.length_append]
    have hle := h.position position hposition
    omega

theorem Sound.read (start : Option Nat)
    (hstart : ∀ k, start = some k → k ≤ w.patches.length) : (w.read start).Sound c where
  approvals := by
    intro id
    obtain ⟨τ, hat, htold, -⟩ := h.approvals id
    exact ⟨τ, hat, htold, fun hno => absurd hno (Nat.not_lt_zero _)⟩
  position := by
    rintro k (hlive | ⟨r, hreading, hr⟩)
    · cases hlive
    · cases hreading
      exact hstart k hr

theorem Sound.pendingInfos {r : Reading} (hs : w.stream = .reading r)
    (horder : ∀ id, (c.shardOf id : Nat) = r.shard → ¬ (w.approvals id).heldInVain) :
    Sound c { w with stream := .reading (w.pendingInfos c r) } where
  approvals := by
    intro id
    obtain ⟨τ, hat, htold, hknows⟩ := h.approvals id
    refine ⟨τ, hat, htold, ?_⟩
    intro hread
    by_cases hshard : (c.shardOf id : Nat) = r.shard
    · have hmap := hat.pending_eq_open (horder id hshard)
      have hinfos : (w.pendingInfos c r).infos id = τ.open.map (·.info id) := by
        simp only [Service.pendingInfos, if_pos hshard]
        rw [hat.pending, hmap]
      have hwas : (w.pendingInfos c r).was id = w.approvals id := by
        simp only [Service.pendingInfos, if_pos hshard]
      show match r.position with | none => _ | some position => _
      cases r.position with
      | none => exact ⟨τ, hwas ▸ hat, hmap, hinfos, hwas ▸ .refl _, fun htaken => htaken⟩
      | some position => exact fun _ _ => hinfos
    · have hbefore : (c.shardOf id : Nat) < r.shard := by
        have hlt : (c.shardOf id : Nat) < r.shard + 1 := hread
        omega
      have hinfos : (w.pendingInfos c r).infos id = r.infos id := by
        simp only [Service.pendingInfos, if_neg hshard]
      have hwas : (w.pendingInfos c r).was id = r.was id := by
        simp only [Service.pendingInfos, if_neg hshard]
      rw [Knows, hs] at hknows
      simp only [hinfos, hwas]
      exact hknows hbefore
  position := by
    rintro k (hlive | ⟨r', hreading, hr⟩)
    · cases hlive
    · cases hreading
      exact h.position k (Or.inr ⟨r, hs, hr⟩)

theorem Sound.subscribe {r : Reading} (hs : w.stream = .reading r) (hall : ¬ r.shard < c.shards)
    (horder : r.position = none → ∀ id, (w.approvals id).ChangedSince (r.was id) →
      (w.approvals id).outstanding) :
    Sound c { w with
      stream := .live (r.position.getD w.patches.length)
      yielded := w.yielded ++ [.snapshot r.infos] } where
  approvals := by
    intro id
    obtain ⟨τ, hat, htold, hknows⟩ := h.approvals id
    refine ⟨τ, hat, htold, ?_⟩
    have hread : (c.shardOf id : Nat) < r.shard :=
      lt_of_lt_of_le (c.shardOf id).isLt (Nat.not_lt.mp hall)
    rw [Knows, hs] at hknows
    specialize hknows hread
    intro hlast hsent
    rw [lastAbout_append, lastAbout_singleton]
    show r.infos id = τ.open.map (·.info id)
    cases hr : r.position with
    | some position =>
      rw [hr] at hknows hlast
      exact hknows hlast hsent
    | none =>
      rw [hr] at hknows
      obtain ⟨τ', hwas, hmap, hinfos, hkeeps, htaken⟩ := hknows
      have hunchanged : ¬ (w.approvals id).ChangedSince (r.was id) :=
        fun hchanged => hsent (horder hr id hchanged)
      rw [hinfos, hat.open_of_unchanged hwas hkeeps htaken hunchanged hmap]
  position := by
    rintro k (hlive | ⟨r', hreading, -⟩)
    · cases hlive
      cases hr : r.position with
      | none => exact le_refl _
      | some position => exact h.position position (Or.inr ⟨r, hs, hr⟩)
    · cases hreading

theorem Sound.recv {position : Nat} (hs : w.stream = .live position)
    (hpatch : w.patches[position]? = some patch) :
    Sound c
      { w with stream := .live (position + 1), yielded := w.yielded ++ [patch] } where
  approvals := by
    intro id
    obtain ⟨τ, hat, htold, hknows⟩ := h.approvals id
    refine ⟨τ, hat, htold, ?_⟩
    intro hlast hsent
    obtain ⟨hlt, hget⟩ := List.getElem?_eq_some_iff.mp hpatch
    have hdrop : w.patches.drop position = [patch] ++ w.patches.drop (position + 1) := by
      rw [List.drop_eq_getElem_cons hlt, hget]
      rfl
    have habout : lastAbout id (w.patches.drop position) = patch.about id := by
      rw [hdrop, lastAbout_append, lastAbout_singleton]
      rw [show lastAbout id (w.patches.drop (position + 1)) = none from hlast, Option.none_or]
    rw [lastAbout_append, lastAbout_singleton]
    cases hi : patch.about id with
    | none =>
      rw [Knows, hs] at hknows
      exact hknows (habout.trans hi) hsent
    | some i =>
      -- it is the last patch of the approval, and all patches of it are sent
      have hall : lastAbout id w.patches = some i := by
        rw [← List.take_append_drop position w.patches, lastAbout_append, habout, hi]
        rfl
      rw [hall, hat.told_eq id hsent] at htold
      exact htold
  position := by
    obtain ⟨hlt, -⟩ := List.getElem?_eq_some_iff.mp hpatch
    rintro k (hlive | ⟨r, hreading, -⟩)
    · cases hlive
      exact hlt
    · cases hreading

theorem Sound.step (horder : w.Orderly c event) :
    (w.step c event).Sound c := by
  cases event with
  | approval id event => exact h.approval id event horder
  | patchStream =>
    rw [Service.step]
    split
    · exact h.read none (fun k hk => by cases hk)
    · exact h
  | pendingInfos =>
    rw [Service.step]
    split
    · rename_i r hs
      split
      · exact h.pendingInfos hs (horder r hs)
      · exact h
    · exact h
  | subscribe =>
    rw [Service.step]
    split
    · rename_i r hs
      split
      · exact h
      · rename_i hall
        exact h.subscribe hs hall (horder r hs)
    · exact h
  | next =>
    rw [Service.step]
    split
    · rename_i position hs
      split
      · apply h.read
        intro k hk
        cases hk
        omega
      · split
        · rename_i patch hpatch
          exact h.recv hs hpatch
        · exact h
    · exact h

theorem Sound.run (horder : w.OrderlyRun c events) :
    (w.run c events).Sound c := by
  induction events generalizing w with
  | nil => exact h
  | cons event events ih => exact ih (h.step horder.1) horder.2

end

end Service

/-- Nobody is in the middle of something that concerns who sees the approval as pending. -/
def Approval.Quiescent (a : Approval) : Prop := ¬ a.outstanding ∧ ¬ a.heldInVain

theorem Service.Sound.converged {id : String} (h : Service.Sound c w) (hs : w.stream = .live w.patches.length)
    (hquiescent : (w.approvals id).Quiescent) :
    (lastAbout id w.yielded).getD none = (w.approvals id).pending.map (·.info id) := by
  obtain ⟨τ, hat, -, hknows⟩ := h.approvals id
  rw [Knows, hs] at hknows
  have hlast : lastAbout id (w.patches.drop w.patches.length) = none := by simp
  rw [hknows hlast hquiescent.1, hat.pending, hat.pending_eq_open hquiescent.2]

theorem stream_converges (c : Sharding) (events : List ServiceEvent)
    (h : Service.new.OrderlyRun c events) :
    let w := Service.new.run c events
    w.stream = .live w.patches.length →
      (∀ id, (w.approvals id).Quiescent →
        (clientView w.yielded).get ["pending", id] =
          (w.approvals id).pending.map fun p => .info (p.info id)) ∧
      ((∀ id, (w.approvals id).Quiescent) →
        clientView w.yielded = approvalState fun id => (w.approvals id).pending.map (·.info id)) := by
  intro w hs
  have hsound : w.Sound c := (Service.new_sound c).run h
  rw [clientView_eq]
  constructor
  · intro id hquiescent
    simp only [approvalState, Json.get, if_pos]
    rw [hsound.converged hs hquiescent]
    cases (w.approvals id).pending <;> rfl
  · intro hquiescent
    congr 1
    funext id
    exact hsound.converged hs (hquiescent id)

/-- The stream begins before the approval is created, lags behind nothing and yields all. -/
theorem stream_converges_sample :
    let request : ApprovalRequest := ⟨"a", "Bash", 1, ⟨[], []⟩, 0, 9⟩
    let w := Service.new.run ⟨1, fun _ => 0⟩ [.patchStream, .pendingInfos, .subscribe,
      .approval "a" (.create request false), .approval "a" .announce, .approval "a" .spawn, .next]
    (w.approvals "a").pending.isSome ∧
      (clientView w.yielded).get ["pending", "a"] =
        (w.approvals "a").pending.map fun p => .info (p.info "a") := by
  intro request w
  have horder : Service.new.OrderlyRun ⟨1, fun _ => 0⟩ [.patchStream, .pendingInfos, .subscribe,
      .approval "a" (.create request false), .approval "a" .announce, .approval "a" .spawn,
      .next] := by
    simp [Service.OrderlyRun, Service.Orderly, Service.step, Service.new, Service.read,
      Service.pendingInfos, Approval.InOrder, Approval.heldInVain, Approval.ChangedSince,
      Approval.taken, Approval.new]
  have hquiescent : (w.approvals "a").Quiescent := by
    have hresponds : ∀ t, (w.approvals "a").responds t = none := fun t => rfl
    constructor
    · rintro (⟨p, hp⟩ | ⟨taker, htaker⟩)
      · cases hp
      · cases taker <;> cases htaker
    · rintro ⟨t, task, p, e, htask, -⟩
      cases (hresponds t).symm.trans htask
  exact ⟨rfl, (stream_converges _ _ horder rfl).1 "a" hquiescent⟩

def Service.Misled (w : Service) (id : String) : Prop :=
  w.stream = .live w.patches.length ∧ (w.approvals id).Quiescent ∧
    ((clientView w.yielded).get ["pending", id]).isSome ≠ (w.approvals id).pending.isSome

theorem Approval.quiescent_of {a : Approval} (hcreation : a.creation = .spawned p)
    (hwatcher : a.watcher = .watching) (hcancels : ∀ t, a.cancels t = none)
    (hresponds : ∀ t task, a.responds t = some task → ∃ result, task.phase = .returned result) :
    a.Quiescent := by
  constructor
  · rintro (⟨q, hq⟩ | ⟨taker, htaker⟩)
    · cases hcreation.symm.trans hq
    · cases taker with
      | respond t =>
        obtain ⟨task, htask, hphase⟩ := Option.bind_eq_some_iff.mp htaker
        obtain ⟨result, hresult⟩ := hresponds t task htask
        simp [hresult, RespondPhase.token] at hphase
      | cancel t => simp [Approval.token, hcancels t] at htaker
      | watcher => simp [Approval.token, hwatcher, WatcherPhase.token] at htaker
  · rintro ⟨t, task, q, e, htask, hphase⟩
    obtain ⟨result, hresult⟩ := hresponds t task htask
    cases hphase.symm.trans hresult

theorem Approval.returned_of {a : Approval} (hzero : a.responds 0 = some ⟨response, .returned result⟩)
    (hnone : ∀ t, a.responds (t + 1) = none) (t : Nat) (task : Respond)
    (htask : a.responds t = some task) : ∃ result, task.phase = .returned result := by
  cases t with
  | zero =>
    cases hzero.symm.trans htask
    exact ⟨result, rfl⟩
  | succ t => cases (hnone t).symm.trans htask

/-- What is created between the reading and the subscription of a stream, the stream never yields.
A shard that is read while a call that does not match has an approval of it lacks the approval. An
approval that is resolved before its created patch is sent comes back with that patch. -/
theorem missed_approvals :
    (Service.new.run ⟨1, fun _ => 0⟩ [.patchStream, .pendingInfos,
      .approval "a" (.create ⟨"a", "Bash", 1, ⟨[], []⟩, 0, 9⟩ false), .approval "a" .announce,
      .approval "a" .spawn, .subscribe]).Misled "a" ∧
    (Service.new.run ⟨1, fun _ => 0⟩ [
      .approval "a" (.create ⟨"a", "Bash", 1, ⟨[], []⟩, 0, 9⟩ false), .approval "a" .announce,
      .approval "a" .spawn, .approval "a" (.call 0 ⟨2, .denied none⟩), .approval "a" (.respond 0),
      .patchStream, .pendingInfos, .approval "a" (.respond 0), .subscribe]).Misled "a" ∧
    (Service.new.run ⟨1, fun _ => 0⟩ [.patchStream, .pendingInfos, .subscribe,
      .approval "a" (.create ⟨"a", "Bash", 1, ⟨[], []⟩, 0, 9⟩ false),
      .approval "a" (.call 0 ⟨1, .denied none⟩), .approval "a" (.respond 0),
      .approval "a" (.respond 0), .approval "a" (.respond 0), .approval "a" (.respond 0),
      .approval "a" .announce, .approval "a" .spawn, .next, .next]).Misled "a" := by
  refine ⟨⟨rfl, ?_, by decide +kernel⟩, ⟨rfl, ?_, by decide +kernel⟩,
    ⟨rfl, ?_, by decide +kernel⟩⟩
  · apply Approval.quiescent_of rfl rfl (fun t => rfl)
    intro t task htask
    cases htask
  · exact Approval.quiescent_of rfl rfl (fun t => rfl) (Approval.returned_of rfl (fun t => rfl))
  · exact Approval.quiescent_of rfl rfl (fun t => rfl) (Approval.returned_of rfl (fun t => rfl))

end Cdesktop.ToolApproval
