import Cdesktop.ToolApprovalStage
import Cdesktop.ToolApprovalPatch

namespace Cdesktop.ToolApproval
set_option autoImplicit true

inductive Taker where
  | respond (t : Nat)
  | cancel (t : Nat)
  | watcher
deriving DecidableEq

/-- Where the pending approval is: it is in one place at a time. -/
inductive Token where
  | uncreated
  | inMap (p : PendingApproval)
  | rejected (t : Nat) (p : PendingApproval)
  | unsent (taker : Taker)
  | gone
deriving DecidableEq

def Token.pending : Token → Option PendingApproval
  | .inMap p => some p
  | _ => none

def Token.open : Token → Option PendingApproval
  | .inMap p | .rejected _ p => some p
  | _ => none

def Token.holder : Token → Option Taker
  | .rejected t _ => some (.respond t)
  | .unsent taker => some taker
  | _ => none

def Token.taken : Token → Bool
  | .unsent _ | .gone => true
  | _ => false

def RespondPhase.token (t : Nat) : RespondPhase → Option Token
  | .rejecting p _ => some (.rejected t p)
  | .accepted _ | .recorded _ | .delivered _ => some (.unsent (.respond t))
  | .called | .missing | .returned _ => none

def CancelPhase.token (t : Nat) : CancelPhase → Option Token
  | .removed | .recorded => some (.unsent (.cancel t))
  | .called | .announced | .returned => none

def WatcherPhase.token : WatcherPhase → Option Token
  | .removed => some (.unsent .watcher)
  | _ => none

/-- What a taker has, until it has sent the patch or put the approval back. -/
def Approval.token (a : Approval) : Taker → Option Token
  | .respond t => (a.responds t).bind fun task => task.phase.token t
  | .cancel t => (a.cancels t).bind fun phase => phase.token t
  | .watcher => a.watcher.token

/-- The created patch, or that of whoever took the approval for good, is still to be sent. -/
def Approval.outstanding (a : Approval) : Prop :=
  (∃ p, a.creation = .inserted p) ∨ ∃ taker, a.token taker = some (.unsent taker)

structure Approval.At (a : Approval) (τ : Token) : Prop where
  pending : a.pending = τ.pending
  approval : ∀ p, τ.open = some p → a.creation.approval = some p
  created : a.creation = .absent ↔ τ = .uncreated
  spawned : a.watcher ≠ .absent → ∃ p, a.creation = .spawned p
  sent : ∀ p, a.creation = .inserted p → τ ≠ .gone
  token : ∀ taker, a.token taker = if τ.holder = some taker then some τ else none

def Approval.told (id : String) (a : Approval) (τ : Token) : Option ApprovalInfo :=
  match a.creation with
  | .announced p | .spawned p => if τ = .gone then none else some (p.info id)
  | .absent | .inserted _ => none

theorem Approval.At.outstanding_iff (h : Approval.At a τ) :
    a.outstanding ↔ (∃ p, a.creation = .inserted p) ∨ ∃ taker, τ = .unsent taker := by
  rw [outstanding]
  apply or_congr_right
  constructor
  · rintro ⟨taker, htaker⟩
    rw [h.token] at htaker
    split_ifs at htaker
    exact ⟨taker, Option.some.inj htaker⟩
  · rintro ⟨taker, rfl⟩
    exact ⟨taker, by simp [h.token, Token.holder]⟩

variable (id : String)

theorem Approval.At.told_eq (h : Approval.At a τ) (hsent : ¬ a.outstanding) :
    a.told id τ = τ.open.map (·.info id) := by
  rw [h.outstanding_iff, not_or] at hsent
  have hlast : ∀ p, a.creation ≠ .absent → a.creation.approval = some p →
      (if τ = .gone then none else some (p.info id)) = τ.open.map (·.info id) := by
    intro p hcreated hp
    cases τ with
    | uncreated => exact absurd (h.created.mpr rfl) hcreated
    | inMap q =>
      cases (h.approval q rfl).symm.trans hp
      rfl
    | rejected t q =>
      cases (h.approval q rfl).symm.trans hp
      rfl
    | unsent taker => exact absurd ⟨taker, rfl⟩ hsent.2
    | gone => rfl
  rw [told]
  cases hcreation : a.creation with
  | absent =>
    obtain rfl := h.created.mp hcreation
    rfl
  | inserted p => exact absurd ⟨p, hcreation⟩ hsent.1
  | announced p => exact hlast p (by simp [hcreation]) (by rw [hcreation]; rfl)
  | spawned p => exact hlast p (by simp [hcreation]) (by rw [hcreation]; rfl)

theorem Approval.new_at : Approval.new.At .uncreated where
  pending := rfl
  approval := fun p hp => by cases hp
  created := by simp [new]
  spawned := fun hw => absurd rfl hw
  sent := fun p hp => by cases hp
  token := fun taker => by cases taker <;> rfl

def Approval.Tells (id : String) (a : Approval) (τ : Token) (a' : Approval) (τ' : Token)
    (patches : List ApprovalPatch) : Prop :=
  (patches = [] ∧ a'.told id τ' = a.told id τ ∧
    (a'.outstanding ∨ τ'.open = τ.open ∧ ¬ a.outstanding)) ∨
  ∃ patch, patches = [patch] ∧ patch.about id = some (a'.told id τ') ∧
    ∀ id', id' ≠ id → patch.about id' = none

variable {a' : Approval}

namespace Approval

theorem At.goOn {τ' : Token} (h : At a τ)
    (htoken : a'.token = Function.update a.token taker
      (if τ'.holder = some taker then some τ' else none))
    (hholder : τ.holder = some taker ∨ τ.holder = none)
    (hholder' : τ'.holder = some taker ∨ τ'.holder = none) (taker' : Taker) :
    a'.token taker' = if τ'.holder = some taker' then some τ' else none := by
  rw [htoken]
  by_cases htaker : taker' = taker
  · subst htaker
    rw [Function.update_self]
  · rw [Function.update_of_ne htaker, h.token]
    have hother : ∀ τ : Token, τ.holder = some taker ∨ τ.holder = none →
        τ.holder ≠ some taker' := by
      rintro τ (hτ | hτ) hno
      · exact htaker (Option.some.inj (hno.symm.trans hτ))
      · cases hno.symm.trans hτ
    rw [if_neg (hother τ hholder), if_neg (hother τ' hholder')]

@[simp] theorem token_setRespond (a : Approval) (t : Nat) (task : Respond) :
    (a.setRespond t task).token =
      Function.update a.token (.respond t) (task.phase.token t) := by
  funext taker
  cases taker with
  | respond t' =>
    by_cases ht : t' = t
    · subst ht
      simp [token, setRespond]
    · simp [token, setRespond, ht]
  | cancel t' => simp [token, setRespond]
  | watcher => simp [token, setRespond]

theorem token_setCancel (a : Approval) (t : Nat) (phase : CancelPhase) :
    token { a with cancels := Function.update a.cancels t (some phase) } =
      Function.update a.token (.cancel t) (phase.token t) := by
  funext taker
  cases taker with
  | cancel t' =>
    by_cases ht : t' = t
    · subst ht
      simp [token]
    · simp [token, ht]
  | respond t' => simp [token]
  | watcher => simp [token]

theorem token_setWatcher (a : Approval) (w : WatcherPhase) :
    token { a with watcher := w } = Function.update a.token .watcher w.token := by
  funext taker
  cases taker with
  | watcher => simp [token]
  | respond t => simp [token]
  | cancel t => simp [token]

theorem At.of_token (h : At a τ) (htoken : a.token taker = some τ') :
    τ = τ' ∧ τ.holder = some taker := by
  rw [h.token] at htoken
  split_ifs at htoken with hholder
  exact ⟨Option.some.inj htoken, hholder⟩

theorem Tells.silent (h : At a τ)
    (h' : a'.At τ') (hcreation : a'.creation = a.creation) (hopen : τ'.open = τ.open)
    (hunsent : ∀ taker, τ' = .unsent taker ↔ τ = .unsent taker) (hgone : τ' = .gone ↔ τ = .gone) :
    Tells id a τ a' τ' [] := by
  left
  refine ⟨rfl, ?_, ?_⟩
  · rw [told, told, hcreation]
    simp only [hgone]
  · rw [h.outstanding_iff, h'.outstanding_iff, hcreation]
    simp only [hunsent]
    by_cases hout : (∃ p, a.creation = .inserted p) ∨ ∃ taker, τ = .unsent taker
    · exact Or.inl hout
    · exact Or.inr ⟨hopen, hout⟩

theorem Tells.same (h : At a τ) (h' : a'.At τ)
    (hcreation : a'.creation = a.creation) : Tells id a τ a' τ [] :=
  .silent id h h' hcreation rfl (fun _ => Iff.rfl) Iff.rfl

theorem Tells.take (hcreation : a'.creation = a.creation)
    (h' : a'.At (.unsent taker)) :
    Tells id a (.inMap p) a' (.unsent taker) [] := by
  left
  refine ⟨rfl, ?_, Or.inl (h'.outstanding_iff.mpr (Or.inr ⟨taker, rfl⟩))⟩
  rw [told, told, hcreation]
  simp

theorem Tells.resolved (τ : Token) (a : Approval)
    : Tells id a τ a' .gone [.resolved id] := by
  right
  refine ⟨_, rfl, ?_, fun id' hid' => ?_⟩
  · rw [told]
    cases a'.creation <;> simp [ApprovalPatch.about]
  · simp [ApprovalPatch.about, Ne.symm hid']

def Goes (id : String) (a : Approval) (τ : Token) (next : Approval × List ApprovalPatch) :
    Prop :=
  ∃ τ', next.1.At τ' ∧ Tells id a τ next.1 τ' next.2 ∧
    (τ.taken = true → τ'.taken = true)

theorem Goes.same (h : At a τ) (h' : a'.At τ)
    (hcreation : a'.creation = a.creation) : Goes id a τ (a', []) :=
  ⟨τ, h', .same id h h' hcreation, fun htaken => htaken⟩

def InOrder (a : Approval) : ApprovalEvent → Prop
  | .respond t => ∀ task p, a.responds t = some task → task.phase = .delivered p →
      ∀ q, a.creation ≠ .inserted q
  | .cancelStep t => a.cancels t = some .recorded → ∀ q, a.creation ≠ .inserted q
  | _ => True

theorem At.create (h : At a τ) (request : ApprovalRequest)
    (isQuestion : Bool) : Goes id a τ (a.step id (.create request isQuestion)) := by
  rw [step]
  split
  · rename_i habsent
    obtain rfl := h.created.mp habsent
    have hnext : At
        { a with
          pending := some (request.pending isQuestion)
          creation := .inserted (request.pending isQuestion) }
        (.inMap (request.pending isQuestion)) :=
      { pending := rfl
        approval := fun p hp => hp
        created := iff_of_false (by simp) (by simp)
        spawned := by
          intro hw
          obtain ⟨p, hp⟩ := h.spawned hw
          cases habsent.symm.trans hp
        sent := by simp
        token := h.token }
    refine ⟨_, hnext, Or.inl ⟨rfl, ?_, Or.inl (Or.inl ⟨_, rfl⟩)⟩, fun htaken => by cases htaken⟩
    rw [told, told, habsent]
  · exact .same id h h rfl

theorem At.announce (h : At a τ) :
    Goes id a τ (a.step id .announce) := by
  rw [step]
  split
  · rename_i p hinserted
    have hnext : At { a with creation := .announced p } τ :=
      { pending := h.pending
        approval := by
          intro q hq
          rw [← h.approval q hq, hinserted]
          rfl
        created := by
          rw [← h.created, hinserted]
          simp
        spawned := by
          intro hw
          obtain ⟨q, hq⟩ := h.spawned hw
          cases hinserted.symm.trans hq
        sent := by simp
        token := h.token }
    refine ⟨τ, hnext, Or.inr ⟨_, rfl, ?_, ?_⟩, fun htaken => htaken⟩
    · simp [told, ApprovalPatch.about, PendingApproval.info, h.sent p hinserted]
    · intro id' hid'
      simp [ApprovalPatch.about, PendingApproval.info, Ne.symm hid']
  · exact .same id h h rfl

theorem At.spawn (h : At a τ) :
    Goes id a τ (a.step id .spawn) := by
  rw [step]
  split
  · rename_i p hannounced
    have hunwatched : a.watcher = .absent := by
      by_contra hw
      obtain ⟨q, hq⟩ := h.spawned hw
      cases hannounced.symm.trans hq
    have htoken : a.watcher.token = WatcherPhase.token .watching := by rw [hunwatched]; rfl
    have hnext : At { a with creation := .spawned p, watcher := .watching } τ :=
      { pending := h.pending
        approval := by
          intro q hq
          rw [← h.approval q hq, hannounced]
          rfl
        created := by
          rw [← h.created, hannounced]
          simp
        spawned := fun _ => ⟨p, rfl⟩
        sent := by simp
        token := by
          intro taker
          rw [← h.token]
          cases taker with
          | watcher => exact htoken.symm
          | respond t => rfl
          | cancel t => rfl }
    refine ⟨τ, hnext, Or.inl ⟨rfl, ?_, ?_⟩, fun htaken => htaken⟩
    · rw [told, told, hannounced]
    · rw [hnext.outstanding_iff, h.outstanding_iff, hannounced]
      by_cases hunsent : ∃ taker, τ = .unsent taker
      · exact Or.inl (Or.inr hunsent)
      · exact Or.inr ⟨rfl, by simpa using hunsent⟩
  · exact .same id h h rfl

theorem At.setWatcher (h : At a τ) (hw : w.token = a.watcher.token)
    (hspawned : a.watcher ≠ .absent) : At { a with watcher := w } τ :=
  { h with
    spawned := fun _ => h.spawned hspawned
    token := by
      intro taker
      rw [← h.token]
      cases taker with
      | watcher => exact hw
      | respond t => rfl
      | cancel t => rfl }

theorem At.inMap (h : At a τ) (hpending : a.pending = some p) :
    τ = .inMap p := by
  have hmap := h.pending.symm.trans hpending
  cases τ <;> cases hmap
  rfl

end Approval

section
variable (h : Approval.At a τ)
include h

theorem Approval.At.watch (expired : Bool) :
    Approval.Goes id a τ (a.watch id expired) := by
  rw [Approval.watch]
  cases hw : a.watcher with
  | absent => exact .same id h h rfl
  | done => exact .same id h h rfl
  | watching =>
    have hspawned : a.watcher ≠ .absent := by simp [hw]
    have hnext : ∀ o, Approval.At { a with watcher := .selected o } τ := by
      intro o
      apply h.setWatcher _ hspawned
      rw [hw]
      rfl
    cases a.waiter.outcome with
    | some o => exact .same id h (hnext o) rfl
    | none =>
      cases expired with
      | true => exact .same id h (hnext .timedOut) rfl
      | false => exact .same id h h rfl
  | selected o =>
    have hspawned : a.watcher ≠ .absent := by simp [hw]
    have htoken : WatcherPhase.token (if o = .timedOut then .recorded else .done) =
        a.watcher.token := by
      rw [hw]
      split_ifs <;> rfl
    exact .same id h { h.setWatcher htoken hspawned with } rfl
  | recorded =>
    have hspawned : a.watcher ≠ .absent := by simp [hw]
    cases hpending : a.pending with
    | none =>
      have hnext := h.setWatcher (w := .done) (by rw [hw]; rfl) hspawned
      rw [hpending] at hnext
      exact .same id h hnext rfl
    | some p =>
      obtain rfl := h.inMap hpending
      have hnext : Approval.At { a with pending := none, watcher := .removed }
          (.unsent .watcher) :=
        { pending := rfl
          approval := fun q hq => by cases hq
          created := iff_of_false (fun hno => by cases h.created.mp hno) (by simp)
          spawned := fun _ => h.spawned hspawned
          sent := by simp
          token := h.goOn (Approval.token_setWatcher a .removed) (Or.inr rfl) (Or.inl rfl) }
      exact ⟨_, hnext, .take id rfl hnext, fun htaken => by cases htaken⟩
  | removed =>
    obtain ⟨p, hp⟩ := h.spawned (by simp [hw])
    have htoken : a.token .watcher = some (.unsent .watcher) := by
      simp [Approval.token, hw, WatcherPhase.token]
    obtain ⟨rfl, -⟩ := h.of_token htoken
    have hnext : Approval.At { a with watcher := .notified } .gone :=
      { pending := h.pending
        approval := fun q hq => by cases hq
        created := iff_of_false (fun hno => by cases h.created.mp hno) (by simp)
        spawned := fun _ => ⟨p, hp⟩
        sent := by simp [hp]
        token := h.goOn (Approval.token_setWatcher a .notified) (Or.inl rfl) (Or.inr rfl) }
    exact ⟨_, hnext, .resolved id _ _, fun _ => rfl⟩
  | notified =>
    have hspawned : a.watcher ≠ .absent := by simp [hw]
    have hnext := h.setWatcher (w := .done) (by rw [hw]; rfl) hspawned
    exact .same id h { hnext with } rfl

theorem Approval.At.setRespond (htoken : a.token (.respond t) = task'.phase.token t) : (a.setRespond t task').At τ :=
  { h with
    token := by
      intro taker
      rw [Approval.token_setRespond, ← h.token, ← htoken, Function.update_eq_self] }

theorem Approval.At.setToken {p' : Option PendingApproval} {τ' : Token} (hholder : τ.holder = some (.respond t) ∨ τ.holder = none)
    (hholder' : τ'.holder = some (.respond t) ∨ τ'.holder = none)
    (htoken : task'.phase.token t = if τ'.holder = some (.respond t) then some τ' else none)
    (hpending : p' = τ'.pending)
    (happroval : ∀ p, τ'.open = some p → a.creation.approval = some p)
    (hcreated : τ ≠ .uncreated ∧ τ' ≠ .uncreated)
    (hsent : ∀ p, a.creation = .inserted p → τ' ≠ .gone) :
    Approval.At (Approval.setRespond { a with pending := p' } t task') τ' where
  pending := hpending
  approval := happroval
  created := iff_of_false (fun hno => hcreated.1 (h.created.mp hno)) hcreated.2
  spawned := h.spawned
  sent := hsent
  token := by
    apply h.goOn _ hholder hholder'
    rw [← htoken]
    exact Approval.token_setRespond a t task'

theorem Approval.At.respond (htask : a.responds t = some task)
    (horder : a.InOrder (.respond t)) : Approval.Goes id a τ (a.respond id t task) := by
  have htoken : a.token (.respond t) = task.phase.token t := by simp [Approval.token, htask]
  rw [Approval.respond]
  cases hphase : task.phase with
  | called =>
    rw [hphase] at htoken
    cases hpending : a.pending with
    | none =>
      have hnext : (a.setRespond t { task with phase := .missing }).At τ := h.setRespond htoken
      exact .same id h hnext rfl
    | some p =>
      obtain rfl := h.inMap hpending
      cases hreject : reject task.response p with
      | some e =>
        simp only [hreject]
        have hnext : Approval.At (Approval.setRespond { a with pending := none } t
            { task with phase := .rejecting p e }) (.rejected t p) :=
          h.setToken (Or.inr rfl) (Or.inl rfl) (by simp [RespondPhase.token, Token.holder]) rfl
            h.approval (by simp) (by simp)
        exact ⟨_, hnext, .silent id h hnext rfl rfl (by simp) (by simp), fun htaken => htaken⟩
      | none =>
        simp only [hreject]
        have hnext : Approval.At (Approval.setRespond { a with pending := none } t
            { task with phase := .accepted p }) (.unsent (.respond t)) :=
          h.setToken (Or.inr rfl) (Or.inl rfl) (by simp [RespondPhase.token, Token.holder]) rfl
            (fun q hq => by cases hq) (by simp) (by simp)
        exact ⟨_, hnext, .take id rfl hnext, fun htaken => by cases htaken⟩
  | missing =>
    rw [hphase] at htoken
    exact .same id h (h.setRespond htoken) rfl
  | rejecting p e =>
    rw [hphase] at htoken
    obtain ⟨rfl, -⟩ := h.of_token htoken
    have hnext : Approval.At (Approval.setRespond { a with pending := some p } t
        { task with phase := .returned (.error e) }) (.inMap p) :=
      h.setToken (Or.inl rfl) (Or.inr rfl) (by simp [RespondPhase.token, Token.holder]) rfl
        h.approval (by simp) (by simp)
    exact ⟨_, hnext, .silent id h hnext rfl rfl (by simp) (by simp), fun htaken => by cases htaken⟩
  | accepted p =>
    rw [hphase] at htoken
    have hnext : (a.setRespond t { task with phase := .recorded p }).At τ := h.setRespond htoken
    exact .same id h { hnext with } rfl
  | recorded p =>
    rw [hphase] at htoken
    have hnext : (a.setRespond t { task with phase := .delivered p }).At τ := h.setRespond htoken
    exact .same id h { hnext with } rfl
  | delivered p =>
    rw [hphase] at htoken
    obtain ⟨rfl, -⟩ := h.of_token htoken
    have hnext : Approval.At (a.setRespond t
        { task with phase := .returned (.ok (task.response.status, p.context)) }) .gone :=
      h.setToken (Or.inl rfl) (Or.inr rfl) (by simp [RespondPhase.token, Token.holder]) h.pending
        (fun q hq => by cases hq) (by simp)
        (fun q hq => absurd hq (horder task p htask hphase q))
    exact ⟨_, hnext, .resolved id _ _, fun _ => rfl⟩
  | returned result => exact .same id h h rfl

theorem Approval.At.setCancel (htoken : a.token (.cancel t) = CancelPhase.token t phase) :
    Approval.At { a with cancels := Function.update a.cancels t (some phase) } τ :=
  { h with
    token := by
      intro taker
      rw [Approval.token_setCancel, ← h.token, ← htoken, Function.update_eq_self] }

theorem Approval.At.cancelStep (hphase : a.cancels t = some phase) (horder : a.InOrder (.cancelStep t)) :
    Approval.Goes id a τ (a.cancelStep id t phase) := by
  have htoken : a.token (.cancel t) = phase.token t := by simp [Approval.token, hphase]
  rw [Approval.cancelStep.eq_def]
  cases phase with
  | called =>
    cases hpending : a.pending with
    | none =>
      have hnext : Approval.At
          { a with cancels := Function.update a.cancels t (some .returned) } τ :=
        h.setCancel htoken
      exact .same id h hnext rfl
    | some p =>
      obtain rfl := h.inMap hpending
      have hnext : Approval.At
          { a with pending := none, cancels := Function.update a.cancels t (some .removed) }
          (.unsent (.cancel t)) :=
        { pending := rfl
          approval := fun q hq => by cases hq
          created := iff_of_false (fun hno => by cases h.created.mp hno) (by simp)
          spawned := h.spawned
          sent := by simp
          token := by
            have htaken := Approval.token_setCancel { a with pending := none } t .removed
            exact h.goOn (htaken.trans (by simp [CancelPhase.token, Token.holder]; rfl))
              (Or.inr rfl) (Or.inl rfl) }
      exact ⟨_, hnext, .take id rfl hnext, fun htaken => by cases htaken⟩
  | removed =>
    have hnext : Approval.At
        { a with cancels := Function.update a.cancels t (some .recorded) } τ := h.setCancel htoken
    exact .same id h { hnext with } rfl
  | recorded =>
    obtain ⟨rfl, -⟩ := h.of_token htoken
    have hnext : Approval.At
        { a with cancels := Function.update a.cancels t (some .announced) } .gone :=
      { pending := h.pending
        approval := fun q hq => by cases hq
        created := iff_of_false (fun hno => by cases h.created.mp hno) (by simp)
        spawned := h.spawned
        sent := fun q hq => absurd hq (horder hphase q)
        token := h.goOn (Approval.token_setCancel a t .announced) (Or.inl rfl) (Or.inr rfl) }
    exact ⟨_, hnext, .resolved id _ _, fun _ => rfl⟩
  | announced =>
    have hnext : Approval.At
        { a with cancels := Function.update a.cancels t (some .returned) } τ := h.setCancel htoken
    exact .same id h { hnext with } rfl
  | returned => exact .same id h h rfl

theorem Approval.At.step (horder : a.InOrder event) :
    Approval.Goes id a τ (a.step id event) := by
  cases event with
  | create request isQuestion => exact h.create id request isQuestion
  | announce => exact h.announce id
  | spawn => exact h.spawn id
  | watch expired => exact h.watch id expired
  | call t response =>
    rw [Approval.step]
    cases hnone : a.responds t with
    | none =>
      have htoken : a.token (.respond t) = RespondPhase.token t .called := by
        simp [Approval.token, hnone, RespondPhase.token]
      exact .same id h (h.setRespond htoken) rfl
    | some task => exact .same id h h rfl
  | respond t =>
    rw [Approval.step]
    cases htask : a.responds t with
    | none => exact .same id h h rfl
    | some task => exact h.respond id htask horder
  | cancel t =>
    rw [Approval.step]
    cases hnone : a.cancels t with
    | none =>
      have htoken : a.token (.cancel t) = CancelPhase.token t .called := by
        simp [Approval.token, hnone, CancelPhase.token]
      exact .same id h (h.setCancel htoken) rfl
    | some phase => exact .same id h h rfl
  | cancelStep t =>
    rw [Approval.step]
    cases hphase : a.cancels t with
    | none => exact .same id h h rfl
    | some phase => exact h.cancelStep id hphase horder

end

end Cdesktop.ToolApproval
