import Cdesktop.ManagedTask

namespace Cdesktop.ManagedTask
open Table (Reply)
set_option autoImplicit true

def RequestPhase.record : RequestPhase → Option ManagedTaskEffect
  | .launching record | .refinding record | .checking record | .finishing record _ _ _ =>
    some record
  | _ => none

def RequestPhase.toLaunch : RequestPhase → Bool
  | .finding true | .launching _ => true
  | _ => false

def epochNotPositive : ApiError := .badRequest "Task epoch must be positive"

def NewManagedTaskEffect.Refused (effect : NewManagedTaskEffect)
    (recorded : List NewManagedTaskEffect) (e : ApiError) : Prop :=
  e = .database ∨ (e = conflict ∧ ∃ first ∈ recorded, first.key = effect.key ∧
      (first.requestHash ≠ effect.requestHash ∨ first.kind ≠ effect.kind)) ∨
    (e = epochNotPositive ∧ effect.epoch < 1) ∨
    (e = staleEpoch ∧ Later recorded effect.key ∧ ¬ Recorded recorded effect.key)

def RequestPhase.Unbegun (recorded : List NewManagedTaskEffect) (effect : NewManagedTaskEffect) :
    RequestPhase → Prop
  | .received | .inserting | .finding _ | .lost => True
  | .asking => Later recorded effect.key ∧ ¬ Recorded recorded effect.key
  | .answered (.error e) => effect.Refused recorded e
  | _ => False

structure Request.Fits (sha256 : String → String) (recorded : List NewManagedTaskEffect)
    (r : Request) : Prop where
  hashed : r.effect.requestHash = sha256 r.launch.json ∧ r.effect.kind = r.launch.kind
  begun : ∀ row, r.begun = some row → row.effect ∈ recorded ∧ row.effect.key = r.effect.key ∧
    row.effect.requestHash = r.effect.requestHash ∧ row.effect.kind = r.effect.kind
  record : ∀ record, r.phase.record = some record → r.begun = some record
  inserting : r.phase = .inserting → 1 ≤ r.effect.epoch
  inserted : r.phase = .finding true → r.effect ∈ recorded
  found : r.phase = .finding false →
    Later recorded r.effect.key ∨ Recorded recorded r.effect.key
  unbegun : r.begun = none → r.phase.Unbegun recorded r.effect
  answered : ∀ response, r.phase = .answered (.ok response) → ∃ row created,
    row.effect ∈ recorded ∧ row.effect.key = r.effect.key ∧ response = toResponse row created

theorem Grows.mem (hgrows : Grows recorded recorded') (h : effect ∈ recorded) :
    effect ∈ recorded' := by
  rcases hgrows with rfl | ⟨effect', rfl, -, -⟩
  · exact h
  · exact List.mem_append_left _ h

theorem Later.grows (h : Later recorded key) (hgrows : Grows recorded recorded') :
    Later recorded' key := by
  obtain ⟨effect, heffect, hkey⟩ := h
  exact ⟨effect, hgrows.mem heffect, hkey⟩

theorem Recorded.grows (h : Recorded recorded key) (hgrows : Grows recorded recorded') :
    Recorded recorded' key := by
  obtain ⟨effect, heffect, hkey⟩ := h
  exact ⟨effect, hgrows.mem heffect, hkey⟩

theorem Grows.not_recorded (hgrows : Grows recorded recorded') (hlater : Later recorded key)
    (hno : ¬ Recorded recorded key) : ¬ Recorded recorded' key := by
  rintro ⟨effect, heffect, hkey⟩
  rcases hgrows with rfl | ⟨effect', rfl, hearlier, -⟩
  · exact hno ⟨effect, heffect, hkey⟩
  · rcases List.mem_append.mp heffect with hold | hnew
    · exact hno ⟨effect, hold, hkey⟩
    · rw [List.mem_singleton] at hnew
      subst hnew
      rw [hkey] at hearlier
      exact hearlier hlater

theorem Request.Fits.grows (h : Request.Fits sha256 recorded r)
    (hgrows : Grows recorded recorded') : r.Fits sha256 recorded' where
  hashed := h.hashed
  begun := by
    intro row hrow
    obtain ⟨hmem, hsame⟩ := h.begun row hrow
    exact ⟨hgrows.mem hmem, hsame⟩
  record := h.record
  inserting := h.inserting
  inserted := fun hphase => hgrows.mem (h.inserted hphase)
  found := by
    intro hphase
    exact (h.found hphase).imp (·.grows hgrows) (·.grows hgrows)
  unbegun := by
    intro hnone
    have hbefore := h.unbegun hnone
    cases hphase : r.phase with
    | asking =>
      rw [hphase] at hbefore
      exact ⟨hbefore.1.grows hgrows, hgrows.not_recorded hbefore.1 hbefore.2⟩
    | answered answer =>
      rw [hphase] at hbefore
      cases answer with
      | ok response => exact hbefore
      | error e =>
        rcases hbefore with he | ⟨he, first, hfirst, hdiffers⟩ | he | ⟨he, hlater, hno⟩
        · exact Or.inl he
        · exact Or.inr (Or.inl ⟨he, first, hgrows.mem hfirst, hdiffers⟩)
        · exact Or.inr (Or.inr (Or.inl he))
        · exact Or.inr (Or.inr (Or.inr ⟨he, hlater.grows hgrows, hgrows.not_recorded hlater hno⟩))
    | received => trivial
    | inserting => trivial
    | finding inserted => trivial
    | lost => trivial
    | _ =>
      rw [hphase] at hbefore
      exact hbefore
  answered := by
    intro response hphase
    obtain ⟨row, created, hrow, hsame⟩ := h.answered response hphase
    exact ⟨row, created, hgrows.mem hrow, hsame⟩

/-- What is known of the launches and the requests beside the recorded effects. -/
structure World.Sound (sha256 : String → String) (w : World) : Prop where
  ordered : w.recorded.Pairwise fun a b => a.taskId = b.taskId → a.epoch < b.epoch
  positive : ∀ effect ∈ w.recorded, 1 ≤ effect.epoch
  source : ∀ effect ∈ w.recorded, ∃ t r, w.requests t = some r ∧ r.effect = effect
  requests : ∀ t r, w.requests t = some r → r.Fits sha256 w.recorded
  launched : ∀ key, w.launches.count key ≤ 1
  reserved : ∀ key ∈ w.launches, Recorded w.recorded key
  toLaunch : ∀ t r, w.requests t = some r → r.phase.toLaunch = true →
    r.effect.key ∉ w.launches ∧ ∀ t' r', w.requests t' = some r' → r'.phase.toLaunch = true →
      r'.effect.key = r.effect.key → t' = t

theorem World.new_sound (sha256 : String → String) : World.new.Sound sha256 where
  ordered := List.Pairwise.nil
  positive := fun effect heffect => by cases heffect
  source := fun effect heffect => by cases heffect
  requests := fun t r hr => by cases hr
  launched := fun key => Nat.zero_le _
  reserved := fun key hkey => by cases hkey
  toLaunch := fun t r hr => by cases hr

theorem World.Sound.setRequest {w' : World} {q : Request} (h : World.Sound sha256 w)
    (hrequests : w'.requests = Function.update w.requests t (some q))
    (hrecorded : w'.recorded = w.recorded) (hlaunches : w'.launches = w.launches)
    (hsame : ∀ r, w.requests t = some r → r.effect = q.effect)
    (hfits : q.Fits sha256 w.recorded)
    (hlaunch : q.phase.toLaunch = true → ∃ r, w.requests t = some r ∧
      r.phase.toLaunch = true) : w'.Sound sha256 := by
  have hcases : ∀ t' r'', w'.requests t' = some r'' →
      (t' = t ∧ r'' = q) ∨ w.requests t' = some r'' := by
    intro t' r'' hr''
    rw [hrequests] at hr''
    by_cases ht : t' = t
    · subst ht
      left
      exact ⟨rfl, by simpa [eq_comm] using hr''⟩
    · right
      simpa [ht] using hr''
  -- every launch to come was to come before, of the same request
  have hbefore : ∀ t' r'', w'.requests t' = some r'' → r''.phase.toLaunch = true →
      ∃ r, w.requests t' = some r ∧ r.phase.toLaunch = true ∧ r''.effect = r.effect := by
    intro t' r'' hr'' hto
    rcases hcases t' r'' hr'' with ⟨rfl, rfl⟩ | hold
    · obtain ⟨r, hr, hto⟩ := hlaunch hto
      exact ⟨r, hr, hto, (hsame r hr).symm⟩
    · exact ⟨r'', hold, hto, rfl⟩
  exact
    { ordered := hrecorded ▸ h.ordered
      positive := hrecorded ▸ h.positive
      source := by
        intro effect heffect
        rw [hrecorded] at heffect
        obtain ⟨t', r, hr, hreffect⟩ := h.source effect heffect
        by_cases ht : t' = t
        · subst ht
          exact ⟨t', q, by simp [hrequests], (hsame r hr).symm.trans hreffect⟩
        · exact ⟨t', r, by simpa [hrequests, ht] using hr, hreffect⟩
      requests := by
        intro t' r'' hr''
        rw [hrecorded]
        rcases hcases t' r'' hr'' with ⟨-, rfl⟩ | hold
        · exact hfits
        · exact h.requests t' r'' hold
      launched := hlaunches ▸ h.launched
      reserved := by
        rw [hlaunches, hrecorded]
        exact h.reserved
      toLaunch := by
        intro t' r'' hr'' hto
        obtain ⟨r, hr, hto', heffect⟩ := hbefore t' r'' hr'' hto
        obtain ⟨hno, hunique⟩ := h.toLaunch t' r hr hto'
        rw [hlaunches, heffect]
        refine ⟨hno, fun t₂ r₂ hr₂ hto₂ hkey => ?_⟩
        obtain ⟨r₂', hr₂', hto₂', heffect₂⟩ := hbefore t₂ r₂ hr₂ hto₂
        rw [heffect₂] at hkey
        exact hunique t₂ r₂' hr₂' hto₂' hkey }

end Cdesktop.ManagedTask
