import Cdesktop.ManagedTaskRequest
import Mathlib.Data.Int.Order.Basic

namespace Cdesktop.ManagedTask
open Table (Reply)
set_option autoImplicit true

variable {phase : RequestPhase} {row : ManagedTaskEffect}

theorem Request.Fits.setPhase (h : Request.Fits sha256 recorded r)
    (hrecord : ∀ record, phase.record = some record → r.begun = some record)
    (hinserting : phase = .inserting → 1 ≤ r.effect.epoch)
    (hinserted : phase = .finding true → r.effect ∈ recorded)
    (hfound : phase = .finding false → Later recorded r.effect.key ∨ Recorded recorded r.effect.key)
    (hunbegun : r.begun = none → phase.Unbegun recorded r.effect)
    (hanswered : ∀ response, phase = .answered (.ok response) → ∃ row created,
      row.effect ∈ recorded ∧ row.effect.key = r.effect.key ∧
        response = toResponse row created) :
    Request.Fits sha256 recorded { r with phase } where
  hashed := h.hashed
  begun := h.begun
  record := hrecord
  inserting := hinserting
  inserted := hinserted
  found := hfound
  unbegun := hunbegun
  answered := hanswered

/-- Only a request that has not begun has something to show in such a phase. -/
def RequestPhase.Plain : RequestPhase → Prop
  | .asking | .rereading | .lost | .answered (.error _) => True
  | _ => False

theorem Request.Fits.plain (h : Request.Fits sha256 recorded r) (hplain : phase.Plain)
    (hunbegun : r.begun = none → phase.Unbegun recorded r.effect) :
    Request.Fits sha256 recorded { r with phase } := by
  apply h.setPhase
  · intro record hrecord
    cases phase <;> first | exact False.elim hplain | cases hrecord
  · rintro rfl
    cases hplain
  · rintro rfl
    cases hplain
  · rintro rfl
    cases hplain
  · exact hunbegun
  · rintro response rfl
    cases hplain

theorem Request.Fits.advance (h : Request.Fits sha256 recorded r)
    (hbegun : r.begun = some row) (hrecord : phase.record = some row) :
    Request.Fits sha256 recorded { r with phase } := by
  apply h.setPhase
  · intro record hrecord'
    rw [hbegun, ← hrecord, hrecord']
  · rintro rfl
    cases hrecord
  · rintro rfl
    cases hrecord
  · rintro rfl
    cases hrecord
  · intro hnone
    rw [hbegun] at hnone
    cases hnone
  · rintro response rfl
    cases hrecord

theorem World.Sound.refuse (h : World.Sound sha256 w) (hr : w.requests t = some r)
    (hrefused : r.begun = none → r.effect.Refused w.recorded e) :
    (w.refuse t r e).Sound sha256 := by
  apply h.setRequest (t := t) (q := { r with phase := .answered (.error e) })
  · rfl
  · rfl
  · rfl
  · intro r₀ hr₀
    rw [hr] at hr₀
    cases hr₀
    rfl
  · exact (h.requests t r hr).plain trivial hrefused
  · intro hto
    cases hto

theorem World.Sound.setBegun (h : World.Sound sha256 w) (hr : w.requests t = some r) {begun}
    (hfits : Request.Fits sha256 w.recorded { r with begun, phase })
    (hlaunch : phase.toLaunch = true → r.phase.toLaunch = true) :
    (w.setPhase t { r with begun } phase).Sound sha256 := by
  apply h.setRequest (t := t) (q := { r with begun, phase })
  · rfl
  · rfl
  · rfl
  · intro r₀ hr₀
    rw [hr] at hr₀
    cases hr₀
    rfl
  · exact hfits
  · intro hto
    exact ⟨r, hr, hlaunch hto⟩

theorem World.Sound.setPhase (h : World.Sound sha256 w) (hr : w.requests t = some r)
    (hfits : Request.Fits sha256 w.recorded { r with phase })
    (hlaunch : phase.toLaunch = true → r.phase.toLaunch = true) :
    (w.setPhase t r phase).Sound sha256 := h.setBegun hr hfits hlaunch

theorem Recorded.of_mem (h : effect ∈ recorded) : Recorded recorded effect.key := ⟨effect, h, rfl⟩

theorem World.Sound.record (h : World.Sound sha256 w) (hr : w.requests t = some r)
    (hearlier : ¬ Later w.recorded r.effect.key) (hno : ¬ Recorded w.recorded r.effect.key)
    (hepoch : 1 ≤ r.effect.epoch)
    (hphase : phase = .finding true ∨ phase = .answered (.error .database)) :
    World.Sound sha256 { w.setPhase t r phase with rows := w.rows ++ [r.effect.row] } := by
  have hrecorded : World.recorded { w.setPhase t r phase with rows := w.rows ++ [r.effect.row] } =
      w.recorded ++ [r.effect] := by
    simp [World.recorded]
  have hgrows : Grows w.recorded (w.recorded ++ [r.effect]) := Or.inr ⟨_, rfl, hearlier, hno⟩
  have hfits := (h.requests t r hr).grows hgrows
  have hmem : r.effect ∈ w.recorded ++ [r.effect] := by simp
  have hfits' : Request.Fits sha256 (w.recorded ++ [r.effect]) { r with phase } := by
    rcases hphase with rfl | rfl
    · apply hfits.setPhase
      · intro record hrecord
        cases hrecord
      · intro hphase
        cases hphase
      · intro _
        exact hmem
      · intro hphase
        cases hphase
      · intro _
        trivial
      · intro response hphase
        cases hphase
    · exact hfits.plain trivial fun _ => Or.inl rfl
  have hcases : ∀ t' r', (w.setPhase t r phase).requests t' = some r' →
      (t' = t ∧ r' = { r with phase }) ∨ (t' ≠ t ∧ w.requests t' = some r') := by
    intro t' r' hr'
    by_cases ht : t' = t
    · subst ht
      left
      exact ⟨rfl, by simpa [World.setPhase, eq_comm] using hr'⟩
    · right
      exact ⟨ht, by simpa [World.setPhase, ht] using hr'⟩
  -- what is to be launched elsewhere is of another key
  have hother : ∀ t' r', w.requests t' = some r' → r'.phase.toLaunch = true →
      r'.effect.key ≠ r.effect.key := by
    intro t' r' hr' hto hkey
    have hfits' := h.requests t' r' hr'
    have hrec : Recorded w.recorded r'.effect.key := by
      cases hp : r'.phase with
      | finding inserted =>
        rw [hp] at hto
        cases inserted with
        | false => cases hto
        | true => exact Recorded.of_mem (hfits'.inserted hp)
      | launching record =>
        obtain ⟨hmem', hkey', -⟩ := hfits'.begun record (hfits'.record record (by rw [hp]; rfl))
        rw [← hkey']
        exact Recorded.of_mem hmem'
      | received | inserting | asking | refinding _ | checking _ | finishing _ _ _ _ | rereading
      | answered _ | lost =>
        rw [hp] at hto
        cases hto
    rw [hkey] at hrec
    exact hno hrec
  constructor
  · rw [hrecorded]
    apply List.pairwise_append.mpr
    refine ⟨h.ordered, List.pairwise_singleton _ _, fun a ha b hb htask => ?_⟩
    rw [List.mem_singleton] at hb
    subst hb
    by_contra hle
    rcases lt_or_eq_of_le (not_lt.mp hle) with hlt | heq
    · exact hearlier ⟨a, ha, htask, hlt⟩
    · exact hno ⟨a, ha, Prod.ext htask heq.symm⟩
  · intro effect heffect
    rw [hrecorded] at heffect
    rcases List.mem_append.mp heffect with hold | hnew
    · exact h.positive effect hold
    · rw [List.mem_singleton] at hnew
      rw [hnew]
      exact hepoch
  · intro effect heffect
    rw [hrecorded] at heffect
    rcases List.mem_append.mp heffect with hold | hnew
    · obtain ⟨t', r', hr', heffect'⟩ := h.source effect hold
      by_cases ht : t' = t
      · subst ht
        rw [hr] at hr'
        cases hr'
        exact ⟨t', { r with phase }, by simp [World.setPhase], heffect'⟩
      · exact ⟨t', r', by simpa [World.setPhase, ht] using hr', heffect'⟩
    · rw [List.mem_singleton] at hnew
      exact ⟨t, { r with phase }, by simp [World.setPhase], hnew.symm⟩
  · intro t' r' hr'
    rw [hrecorded]
    rcases hcases t' r' hr' with ⟨-, rfl⟩ | ⟨-, hold⟩
    · exact hfits'
    · exact (h.requests t' r' hold).grows hgrows
  · exact h.launched
  · intro key hkey
    rw [hrecorded]
    exact (h.reserved key hkey).grows hgrows
  · intro t' r' hr' hto
    rcases hcases t' r' hr' with ⟨rfl, rfl⟩ | ⟨-, hold⟩
    · refine ⟨fun hlaunched => hno (h.reserved _ hlaunched), fun t'' r'' hr'' hto'' hkey => ?_⟩
      rcases hcases t'' r'' hr'' with ⟨ht, -⟩ | ⟨-, hold''⟩
      · exact ht
      · exact absurd hkey (hother t'' r'' hold'' hto'')
    · obtain ⟨hnot, hunique⟩ := h.toLaunch t' r' hold hto
      refine ⟨hnot, fun t'' r'' hr'' hto'' hkey => ?_⟩
      rcases hcases t'' r'' hr'' with ⟨-, rfl⟩ | ⟨-, hold''⟩
      · exact absurd hkey.symm (hother t' r' hold hto)
      · exact hunique t'' r'' hold'' hto'' hkey

theorem World.Sound.launch (h : World.Sound sha256 w) (hr : w.requests t = some r)
    (hto : r.phase.toLaunch = true) (hrecorded : Recorded w.recorded r.effect.key)
    (hfits : Request.Fits sha256 w.recorded { r with phase }) (hphase : phase.toLaunch = false) :
    World.Sound sha256 { w.setPhase t r phase with
      launches := (r.effect.taskId, r.effect.epoch) :: w.launches } := by
  obtain ⟨hnot, hunique⟩ := h.toLaunch t r hr hto
  have hgoes : (w.setPhase t r phase).Sound sha256 := by
    apply h.setPhase hr hfits
    intro hto'
    rw [hphase] at hto'
    cases hto'
  have hzero : w.launches.count r.effect.key = 0 := List.count_eq_zero.mpr hnot
  refine { hgoes with launched := ?_, reserved := ?_, toLaunch := ?_ }
  · intro key
    rw [List.count_cons]
    by_cases hkey : (r.effect.taskId, r.effect.epoch) = key
    · subst hkey
      rw [show w.launches.count (r.effect.taskId, r.effect.epoch) = 0 from hzero]
      simp
    · simpa [hkey] using h.launched key
  · intro key hkey
    rcases List.mem_cons.mp hkey with rfl | hold
    · exact hrecorded
    · exact h.reserved key hold
  · intro t' r' hr' hto'
    obtain ⟨hnot', hunique'⟩ := hgoes.toLaunch t' r' hr' hto'
    refine ⟨?_, hunique'⟩
    intro hmem
    rcases List.mem_cons.mp hmem with hkey | hold
    · have hne : t' ≠ t := by
        rintro rfl
        have : r' = { r with phase } := by simpa [World.setPhase, eq_comm] using hr'
        rw [this] at hto'
        change phase.toLaunch = true at hto'
        rw [hphase] at hto'
        cases hto'
      have hr'w : w.requests t' = some r' := by simpa [World.setPhase, hne] using hr'
      exact hne (hunique t' r' hr'w hto' hkey)
    · exact hnot' hold

theorem World.Sound.serve_inserting (h : World.Sound sha256 w) (hr : w.requests t = some r)
    (hphase : r.phase = .inserting) (reply : Reply) (native : Native) :
    (w.serve t r reply native).Sound sha256 := by
  have hepoch := (h.requests t r hr).inserting hphase
  rw [World.serve.eq_def, hphase]
  cases reply with
  | failed => exact h.refuse hr (fun _ => Or.inl rfl)
  | ok =>
    rcases insert_cases w.rows r.effect with ⟨hinsert, hlater, hno⟩ | ⟨hinsert, hthere⟩
    · simp only [hinsert]
      exact h.record hr hlater hno hepoch (Or.inl rfl)
    · simp only [hinsert]
      apply h.setPhase hr
      · apply (h.requests t r hr).setPhase
        · intro record hrecord
          cases hrecord
        · intro hp
          cases hp
        · intro hp
          cases hp
        · intro _
          exact hthere
        · intro _
          trivial
        · intro response hp
          cases hp
      · intro hto
        cases hto
  | lost =>
    rcases insert_cases w.rows r.effect with ⟨hinsert, hlater, hno⟩ | ⟨hinsert, hthere⟩
    · simp only [hinsert]
      exact h.record hr hlater hno hepoch (Or.inr rfl)
    · simp only [hinsert]
      exact h.refuse hr (fun _ => Or.inl rfl)

theorem Request.Fits.begin (h : Request.Fits sha256 recorded r) (hmem : row.effect ∈ recorded)
    (hkey : row.effect.key = r.effect.key)
    (hsame : ¬ (row.requestHash ≠ r.effect.requestHash ∨ row.kind ≠ r.effect.kind))
    (hphase : phase = .launching row ∨ phase = .answered (.error tooEarly) ∨
      phase = .answered (.ok (toResponse row false))) :
    Request.Fits sha256 recorded { r with begun := some row, phase } := by
  rw [not_or, not_not, not_not] at hsame
  constructor
  · exact h.hashed
  · intro row' hrow'
    cases hrow'
    exact ⟨hmem, hkey, hsame⟩
  · intro record hrecord
    rcases hphase with rfl | rfl | rfl
    · exact hrecord
    · cases hrecord
    · cases hrecord
  · intro hp
    rcases hphase with rfl | rfl | rfl <;> cases hp
  · intro hp
    rcases hphase with rfl | rfl | rfl <;> cases hp
  · intro hp
    rcases hphase with rfl | rfl | rfl <;> cases hp
  · intro hnone
    cases hnone
  · intro response hp
    rcases hphase with rfl | rfl | rfl
    · cases hp
    · cases hp
    · cases hp
      exact ⟨row, false, hmem, hkey, rfl⟩

section
variable (h : World.Sound sha256 w)
include h

theorem World.Sound.serve_finding (hr : w.requests t = some r)
    {inserted : Bool} (hphase : r.phase = .finding inserted) (reply : Reply) (native : Native) :
    (w.serve t r reply native).Sound sha256 := by
  have hfits := h.requests t r hr
  rw [World.serve.eq_def, hphase]
  dsimp only
  split
  · exact h.refuse hr (fun _ => Or.inl rfl)
  · cases hfind : find w.rows r.effect.taskId r.effect.epoch with
    | none =>
      have hno : ¬ Recorded w.recorded r.effect.key := find_eq_none.mp hfind
      have hlater : Later w.recorded r.effect.key := by
        cases inserted with
        | true => exact absurd (Recorded.of_mem (hfits.inserted hphase)) hno
        | false => exact (hfits.found hphase).resolve_right hno
      apply h.setPhase hr
      · exact hfits.plain trivial fun _ => ⟨hlater, hno⟩
      · intro hto
        cases hto
    | some row =>
      obtain ⟨hrow, hkey⟩ := find_eq_some hfind
      have hmem : row.effect ∈ w.recorded := List.mem_map_of_mem hrow
      dsimp only
      split
      · rename_i hdiffers
        exact h.refuse hr (fun _ => Or.inr (Or.inl ⟨rfl, row.effect, hmem, hkey, hdiffers⟩))
      · rename_i hparams
        split
        · rename_i hinserted
          apply h.setBegun hr
          · exact hfits.begin hmem hkey hparams (Or.inl rfl)
          · intro _
            rw [hphase, hinserted]
            rfl
        · split
          · apply h.setBegun hr
            · exact hfits.begin hmem hkey hparams (Or.inr (Or.inl rfl))
            · intro hto
              cases hto
          · apply h.setBegun hr
            · exact hfits.begin hmem hkey hparams (Or.inr (Or.inr rfl))
            · intro hto
              cases hto

theorem World.Sound.finish (call : FinishManagedTaskEffect) :
    (w.finish call).Sound sha256 := by
  have hrecorded : (w.finish call).recorded = w.recorded := recorded_finish w.rows call
  constructor
  · rw [hrecorded]
    exact h.ordered
  · rw [hrecorded]
    exact h.positive
  · rw [hrecorded]
    exact h.source
  · rw [hrecorded]
    exact h.requests
  · exact h.launched
  · rw [hrecorded]
    exact h.reserved
  · exact h.toLaunch

theorem World.Sound.advance (hr : w.requests t = some r) (hbegun : r.begun = some row)
    (hrecord : phase.record = some row) (hto : phase.toLaunch = false) :
    (w.setPhase t r phase).Sound sha256 := by
  apply h.setPhase hr
  · exact (h.requests t r hr).advance hbegun hrecord
  · intro hto'
    rw [hto] at hto'
    cases hto'

theorem World.Sound.serve (hr : w.requests t = some r) (reply : Reply)
    (native : Native) : (w.serve t r reply native).Sound sha256 := by
  have hfits := h.requests t r hr
  cases hphase : r.phase with
  | received =>
    rw [World.serve.eq_def, hphase]
    dsimp only
    split
    · rename_i hepoch
      exact h.refuse hr (fun _ => Or.inr (Or.inr (Or.inl ⟨rfl, hepoch⟩)))
    · rename_i hepoch
      apply h.setPhase hr
      · apply hfits.setPhase
        · intro record hrecord
          cases hrecord
        · intro _
          omega
        · intro hp
          cases hp
        · intro hp
          cases hp
        · intro _
          trivial
        · intro response hp
          cases hp
      · intro hto
        cases hto
  | inserting => exact h.serve_inserting hr hphase reply native
  | finding inserted => exact h.serve_finding hr hphase reply native
  | asking =>
    rw [World.serve.eq_def, hphase]
    dsimp only
    split
    · exact h.refuse hr (fun _ => Or.inl rfl)
    · split
      · apply h.refuse hr
        intro hnone
        have hasking := hfits.unbegun hnone
        rw [hphase] at hasking
        exact Or.inr (Or.inr (Or.inr ⟨rfl, hasking⟩))
      · rename_i hnewer
        apply h.refuse hr
        intro hnone
        have hasking := hfits.unbegun hnone
        rw [hphase] at hasking
        exact absurd (newer_iff.mpr hasking.1) hnewer
  | launching record =>
    have hbegun := hfits.record record (by rw [hphase]; rfl)
    obtain ⟨hmem, hkey, -⟩ := hfits.begun record hbegun
    have hrecorded : Recorded w.recorded r.effect.key := ⟨record.effect, hmem, hkey⟩
    have hto : r.phase.toLaunch = true := by
      rw [hphase]
      rfl
    rw [World.serve.eq_def, hphase]
    dsimp only
    apply h.launch hr hto hrecorded
    · apply hfits.advance hbegun
      split <;> rfl
    · split <;> rfl
  | refinding record =>
    have hbegun := hfits.record record (by rw [hphase]; rfl)
    have hrefused : ∀ e, r.begun = none → r.effect.Refused w.recorded e := by
      intro e hnone
      rw [hbegun] at hnone
      cases hnone
    rw [World.serve.eq_def, hphase]
    dsimp only
    split
    · exact h.refuse hr (hrefused _)
    · split
      · exact h.refuse hr (hrefused _)
      · exact h.advance hr hbegun rfl rfl
  | checking record =>
    have hbegun := hfits.record record (by rw [hphase]; rfl)
    rw [World.serve.eq_def, hphase]
    dsimp only
    split
    · exact h.refuse hr (fun _ => Or.inl rfl)
    · split
      · exact h.advance hr hbegun rfl rfl
      · exact h.advance hr hbegun rfl rfl
  | finishing record state effectCreated reason =>
    have hbegun := hfits.record record (by rw [hphase]; rfl)
    rw [World.serve.eq_def, hphase]
    cases reply with
    | failed => exact h.refuse hr (fun _ => Or.inl rfl)
    | ok =>
      have hfinished := h.finish (r.finishing record state effectCreated reason)
      apply hfinished.setPhase hr
      · refine (hfinished.requests t r hr).plain ?_ ?_
        · trivial
        · intro hnone
          rw [hbegun] at hnone
          cases hnone
      · intro hto
        cases hto
    | lost =>
      have hfinished := h.finish (r.finishing record state effectCreated reason)
      exact hfinished.refuse hr (fun _ => Or.inl rfl)
  | rereading =>
    have hbegun : r.begun ≠ none := by
      intro hnone
      have hunbegun := hfits.unbegun hnone
      rw [hphase] at hunbegun
      exact hunbegun
    rw [World.serve.eq_def, hphase]
    dsimp only
    split
    · exact h.refuse hr (fun _ => Or.inl rfl)
    · cases hfind : find w.rows r.effect.taskId r.effect.epoch with
      | none => exact h.refuse hr (fun _ => Or.inl rfl)
      | some row =>
        obtain ⟨hrow, hkey⟩ := find_eq_some hfind
        apply h.setPhase hr
        · apply hfits.setPhase
          · intro record hrecord
            cases hrecord
          · intro hp
            cases hp
          · intro hp
            cases hp
          · intro hp
            cases hp
          · intro hnone
            exact absurd hnone hbegun
          · intro response hp
            cases hp
            exact ⟨row, true, List.mem_map_of_mem hrow, hkey, rfl⟩
        · intro hto
          cases hto
  | answered answer =>
    rw [World.serve.eq_def, hphase]
    exact h
  | lost =>
    rw [World.serve.eq_def, hphase]
    exact h

end

end Cdesktop.ManagedTask
