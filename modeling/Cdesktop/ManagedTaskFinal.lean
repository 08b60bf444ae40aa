import Cdesktop.ManagedTaskFence
import Mathlib.Data.Set.Function
import Mathlib.Logic.Equiv.Basic

namespace Cdesktop.ManagedTask
open Table (Reply)
set_option autoImplicit true

theorem World.Sound.step (h : World.Sound sha256 w) (event : Event) :
    (w.step sha256 event).Sound sha256 := by
  cases event with
  | request t taskId epoch launch workspaceId sessionId ownerInstanceId leaseId =>
    rw [World.step.eq_def]
    cases hr : w.requests t with
    | some r =>
      simp only [hr]
      exact h
    | none =>
      simp only [hr]
      apply h.setRequest (t := t)
      · rfl
      · rfl
      · rfl
      · intro r hr'
        rw [hr] at hr'
        cases hr'
      · constructor
        · exact ⟨rfl, rfl⟩
        · intro row hrow
          cases hrow
        · intro record hrecord
          cases hrecord
        · intro hp
          cases hp
        · intro hp
          cases hp
        · intro hp
          cases hp
        · intro _
          trivial
        · intro response hp
          cases hp
      · intro hto
        cases hto
  | step t reply native =>
    rw [World.step.eq_def]
    cases hr : w.requests t with
    | none =>
      simp only [hr]
      exact h
    | some r =>
      simp only [hr]
      exact h.serve hr reply native
  | finish call => exact h.finish call
  | lose t =>
    rw [World.step.eq_def]
    cases hr : w.requests t with
    | none =>
      simp only [hr]
      exact h
    | some r =>
      have hlost : (w.setPhase t r .lost).Sound sha256 := by
        apply h.setPhase hr
        · exact (h.requests t r hr).plain trivial fun _ => trivial
        · intro hto
          cases hto
      simp only [hr]
      split
      · exact h
      · exact hlost

theorem World.Sound.run (sha256 : String → String) (events : List Event) :
    (Run.run (World.step sha256) World.new events).Sound sha256 :=
  Run.preserves (P := World.Sound sha256) (fun _ event h => World.Sound.step h event) (World.new_sound sha256) events

theorem World.Sound.nodup (h : World.Sound sha256 w) :
    (w.recorded.map NewManagedTaskEffect.key).Nodup := by
  apply List.pairwise_map.mpr
  apply h.ordered.imp
  intro a b hlt hkey
  have hepoch : a.epoch = b.epoch := congrArg Prod.snd hkey
  have := hlt (congrArg Prod.fst hkey)
  omega

theorem World.Sound.eq_of_key (h : World.Sound sha256 w) (ha : a ∈ w.recorded)
    (hb : b ∈ w.recorded) (hkey : a.key = b.key) : a = b :=
  Table.eq_of_key h.nodup ha hb hkey

theorem World.Sound.row_eq_of_key (h : World.Sound sha256 w) {row row' : ManagedTaskEffect}
    (hrow : row ∈ w.rows) (hrow' : row' ∈ w.rows) (hkey : row.effect.key = row'.effect.key) :
    row = row' := by
  have hnodup := h.nodup
  rw [World.recorded, List.map_map] at hnodup
  exact Table.eq_of_key hnodup hrow hrow' hkey

/-- The call of `finish` is by the holder of the row, which is as the call left it. -/
structure FinishManagedTaskEffect.Made (call : FinishManagedTaskEffect) (row : ManagedTaskEffect) :
    Prop where
  key : row.effect.key = call.key
  holder : row.ownerInstanceId = call.ownerInstanceId ∧ row.leaseId = call.leaseId
  result : row.state = call.state ∧ row.effectCreated = call.effectCreated ∧
    row.reason = call.reason
  final : call.state ≠ .pending

structure World.Final (w : World) : Prop where
  made : ∀ call ∈ w.finalized, ∃ row ∈ w.rows, call.Made row
  finished : ∀ row ∈ w.rows, row.state ≠ .pending → ∃ call ∈ w.finalized, call.key = row.effect.key
  once : (w.finalized.map FinishManagedTaskEffect.key).Nodup

theorem matches_iff {call : FinishManagedTaskEffect} {row : ManagedTaskEffect} :
    call.matches row = true ↔ row.effect.key = call.key ∧ row.state = .pending ∧
      row.ownerInstanceId = call.ownerInstanceId ∧ row.leaseId = call.leaseId := by
  simp [FinishManagedTaskEffect.matches, ManagedTaskEffect.isAt, NewManagedTaskEffect.key,
    ManagedTaskEffect.effect, FinishManagedTaskEffect.key]

theorem not_matches (call : FinishManagedTaskEffect) {row : ManagedTaskEffect}
    (h : row.state ≠ .pending) : call.matches row = false := by
  rw [Bool.eq_false_iff]
  intro hmatches
  exact h (matches_iff.mp hmatches).2.1

theorem World.Final.finish (h : World.Final w) (hsound : World.Sound sha256 w)
    (call : FinishManagedTaskEffect) : (w.finish call).Final := by
  -- a row that was finalized before is left as it is
  have hmade : ∀ earlier ∈ w.finalized, ∃ row ∈ (w.finish call).rows, earlier.Made row := by
    intro earlier hearlier
    obtain ⟨row, hrow, hrowmade⟩ := h.made earlier hearlier
    have hstate : row.state ≠ .pending := by
      rw [hrowmade.result.1]
      exact hrowmade.final
    exact ⟨row, Table.mem_update_of_false hrow (not_matches call hstate), hrowmade⟩
  by_cases hnew : (w.rows.any call.matches = true) ∧ call.state ≠ .pending
  · have hfinalized : (w.finish call).finalized = call :: w.finalized := if_pos hnew
    obtain ⟨row, hrow, hmatches⟩ := List.any_eq_true.mp hnew.1
    obtain ⟨hkey, hpending, howner, hlease⟩ := matches_iff.mp hmatches
    constructor
    · intro f hf
      rw [hfinalized] at hf
      rcases List.mem_cons.mp hf with rfl | hold
      · exact ⟨_, Table.mem_update_of_true hrow hmatches,
          ⟨hkey, ⟨howner, hlease⟩, ⟨rfl, rfl, rfl⟩, hnew.2⟩⟩
      · exact hmade f hold
    · intro row' hrow' hstate
      rw [hfinalized]
      rcases Table.mem_update.mp hrow' with ⟨row₀, -, hmatches₀, rfl⟩ | ⟨hold, -⟩
      · exact ⟨call, List.mem_cons_self, (matches_iff.mp hmatches₀).1.symm⟩
      · obtain ⟨f, hf, hfkey⟩ := h.finished row' hold hstate
        exact ⟨f, List.mem_cons_of_mem _ hf, hfkey⟩
    · rw [hfinalized, List.map_cons, List.nodup_cons]
      constructor
      · intro hmem
        obtain ⟨f, hf, hfkey⟩ := List.mem_map.mp hmem
        obtain ⟨row', hrow', hrowmade⟩ := h.made f hf
        have hsame : row' = row := by
          apply hsound.row_eq_of_key hrow' hrow
          rw [hrowmade.key, hfkey, hkey]
        rw [hsame] at hrowmade
        exact hrowmade.final (hrowmade.result.1.symm.trans hpending)
      · exact h.once
  · have hfinalized : (w.finish call).finalized = w.finalized := if_neg hnew
    constructor
    · rw [hfinalized]
      exact hmade
    · intro row' hrow' hstate
      rw [hfinalized]
      rcases Table.mem_update.mp hrow' with ⟨row₀, hrow₀, hmatches₀, rfl⟩ | ⟨hold, -⟩
      · exact absurd ⟨List.any_eq_true.mpr ⟨row₀, hrow₀, hmatches₀⟩, hstate⟩ hnew
      · exact h.finished row' hold hstate
    · rw [hfinalized]
      exact h.once

theorem World.Final.of_rows {w' : World} (h : World.Final w)
    (hrows : w'.rows = w.rows ∨ ∃ effect : NewManagedTaskEffect, w'.rows = w.rows ++ [effect.row])
    (hfinalized : w'.finalized = w.finalized) : w'.Final := by
  rcases hrows with hrows | ⟨effect, hrows⟩
  · constructor
    · rw [hrows, hfinalized]
      exact h.made
    · rw [hrows, hfinalized]
      exact h.finished
    · rw [hfinalized]
      exact h.once
  · constructor
    · intro call hcall
      rw [hfinalized] at hcall
      obtain ⟨row, hrow, hmade⟩ := h.made call hcall
      rw [hrows]
      exact ⟨row, List.mem_append_left _ hrow, hmade⟩
    · intro row hrow hstate
      rw [hrows] at hrow
      rw [hfinalized]
      rcases List.mem_append.mp hrow with hold | hnew
      · exact h.finished row hold hstate
      · rw [List.mem_singleton] at hnew
        subst hnew
        exact absurd rfl hstate
    · rw [hfinalized]
      exact h.once

theorem insert_rows (rows : Effects) (effect : NewManagedTaskEffect) :
    (insert rows effect).1 = rows ∨ (insert rows effect).1 = rows ++ [effect.row] := by
  rcases insert_cases rows effect with ⟨hinsert, -⟩ | ⟨hinsert, -⟩
  · right
    rw [hinsert]
  · left
    rw [hinsert]

theorem World.Final.serve (h : World.Final w) (hsound : World.Sound sha256 w) (t : Nat)
    (r : Request) (reply : Reply) (native : Native) : (w.serve t r reply native).Final := by
  cases hphase : r.phase with
  | inserting =>
    rw [World.serve.eq_def, hphase]
    have hrows := insert_rows w.rows r.effect
    cases reply with
    | failed => exact h.of_rows (Or.inl rfl) rfl
    | ok => exact h.of_rows (hrows.imp id (fun hrows => ⟨r.effect, hrows⟩)) rfl
    | lost => exact h.of_rows (hrows.imp id (fun hrows => ⟨r.effect, hrows⟩)) rfl
  | finishing record state effectCreated reason =>
    rw [World.serve.eq_def, hphase]
    have hfinish := h.finish hsound (r.finishing record state effectCreated reason)
    cases reply with
    | failed => exact h.of_rows (Or.inl rfl) rfl
    | ok => exact hfinish.of_rows (Or.inl rfl) rfl
    | lost => exact hfinish.of_rows (Or.inl rfl) rfl
  | answered answer =>
    rw [World.serve.eq_def, hphase]
    exact h
  | lost =>
    rw [World.serve.eq_def, hphase]
    exact h
  | _ =>
    -- The other phases ask and read, and write no row.
    rw [World.serve.eq_def, hphase]
    dsimp only
    repeat' split
    all_goals exact h.of_rows (Or.inl rfl) rfl

theorem World.Final.step (h : World.Final w) (hsound : World.Sound sha256 w) (event : Event) :
    (w.step sha256 event).Final := by
  cases event with
  | request t taskId epoch launch workspaceId sessionId ownerInstanceId leaseId =>
    rw [World.step.eq_def]
    dsimp only
    split
    · exact h.of_rows (Or.inl rfl) rfl
    · exact h
  | step t reply native =>
    rw [World.step.eq_def]
    dsimp only
    split
    · exact h
    · exact h.serve hsound t _ reply native
  | finish call => exact h.finish hsound call
  | lose t =>
    rw [World.step.eq_def]
    dsimp only
    split
    · exact h
    · split
      · exact h
      · exact h.of_rows (Or.inl rfl) rfl

theorem World.Final.run (sha256 : String → String) (events : List Event) :
    (Run.run (World.step sha256) World.new events).Final := by
  have hboth := Run.preserves (P := fun w => World.Sound sha256 w ∧ World.Final w)
    (fun w event h => ⟨h.1.step event, h.2.step h.1 event⟩)
    ⟨World.new_sound sha256,
      ⟨fun call hcall => (by cases hcall), fun row hrow => (by cases hrow), List.nodup_nil⟩⟩
    events
  exact hboth.2

/-- A request with the parameters the effect at its task and epoch is recorded with. -/
structure Request.Replays (r first : Request) : Prop where
  ids : ∀ row, r.begun = some row →
    row.workspaceId = first.effect.workspaceId ∧ row.sessionId = first.effect.sessionId
  answer : ∀ response, r.phase = .answered (.ok response) → ∃ row created,
    row.effect = first.effect ∧ response = toResponse row created
  refusal : ∀ e, r.begun = none → r.phase = .answered (.error e) → e = .database

/-- A request with other parameters than the effect at its task and epoch is recorded with. -/
structure Request.Conflicts (sha256 : String → String) (t : Nat) (r : Request) (w : World) :
    Prop where
  begun : r.begun = none
  answer : ∀ answer, r.phase = .answered answer →
    answer = .error conflict ∨ answer = .error .database
  unchanged : ∀ reply native, (w.step sha256 (.step t reply native)).rows = w.rows ∧
    (w.step sha256 (.step t reply native)).launches = w.launches ∧
    (w.step sha256 (.step t reply native)).finalized = w.finalized

theorem World.Sound.refused (h : World.Sound sha256 w) (hr : w.requests t = some r)
    (hmem : effect ∈ w.recorded) (hkey : effect.key = r.effect.key) (hnone : r.begun = none)
    (hphase : r.phase = .answered (.error e)) : e = .database ∨ (e = conflict ∧
      (effect.requestHash ≠ r.effect.requestHash ∨ effect.kind ≠ r.effect.kind)) := by
  have hrefused := (h.requests t r hr).unbegun hnone
  rw [hphase] at hrefused
  rcases hrefused with he | ⟨he, first, hfirst, hfirstkey, hdiffers⟩ | ⟨-, hepoch⟩ | ⟨-, -, hno⟩
  · exact Or.inl he
  · have hsame := h.eq_of_key hfirst hmem (hfirstkey.trans hkey.symm)
    rw [hsame] at hdiffers
    exact Or.inr ⟨he, hdiffers⟩
  · have hpositive := h.positive effect hmem
    have : effect.epoch = r.effect.epoch := congrArg Prod.snd hkey
    omega
  · exact absurd ⟨effect, hmem, hkey⟩ hno

theorem World.Sound.replays (h : World.Sound sha256 w) (hr : w.requests t = some r)
    (hfirst : w.requests t₀ = some first) (hmem : first.effect ∈ w.recorded)
    (hkey : r.effect.key = first.effect.key) (hlaunch : r.launch = first.launch) :
    r.Replays first := by
  have hfits := h.requests t r hr
  constructor
  · intro row hrow
    obtain ⟨hrowmem, hrowkey, -⟩ := hfits.begun row hrow
    have hsame := h.eq_of_key hrowmem hmem (hrowkey.trans hkey)
    exact ⟨congrArg NewManagedTaskEffect.workspaceId hsame,
      congrArg NewManagedTaskEffect.sessionId hsame⟩
  · intro response hphase
    obtain ⟨row, created, hrowmem, hrowkey, hresponse⟩ := hfits.answered response hphase
    exact ⟨row, created, h.eq_of_key hrowmem hmem (hrowkey.trans hkey), hresponse⟩
  · intro e hnone hphase
    rcases h.refused hr hmem hkey.symm hnone hphase with he | ⟨-, hdiffers⟩
    · exact he
    · have hhash : first.effect.requestHash = r.effect.requestHash := by
        rw [(h.requests t₀ first hfirst).hashed.1, hfits.hashed.1, hlaunch]
      have hkind : first.effect.kind = r.effect.kind := by
        rw [(h.requests t₀ first hfirst).hashed.2, hfits.hashed.2, hlaunch]
      rcases hdiffers with hne | hne
      · exact absurd hhash hne
      · exact absurd hkind hne

theorem insert_of_recorded {rows : Effects}
    (h : Recorded (rows.map ManagedTaskEffect.effect) effect.key) :
    insert rows effect = (rows, false) := by
  rcases insert_cases rows effect with ⟨-, -, hno⟩ | ⟨hinsert, -⟩
  · exact absurd h hno
  · exact hinsert

theorem World.Sound.serve_unchanged (h : World.Sound sha256 w) (hr : w.requests t = some r)
    (hrecorded : Recorded w.recorded r.effect.key) (hnone : r.begun = none) (reply : Reply)
    (native : Native) : (w.serve t r reply native).rows = w.rows ∧
      (w.serve t r reply native).launches = w.launches ∧
      (w.serve t r reply native).finalized = w.finalized := by
  have hunbegun := (h.requests t r hr).unbegun hnone
  cases hphase : r.phase with
  | inserting =>
    have hinsert := insert_of_recorded hrecorded
    rw [World.serve.eq_def, hphase]
    cases reply with
    | failed => exact ⟨rfl, rfl, rfl⟩
    | ok => exact ⟨congrArg Prod.fst hinsert, rfl, rfl⟩
    | lost => exact ⟨congrArg Prod.fst hinsert, rfl, rfl⟩
  | received =>
    rw [World.serve.eq_def, hphase]
    dsimp only
    split <;> exact ⟨rfl, rfl, rfl⟩
  | finding inserted =>
    rw [World.serve.eq_def, hphase]
    dsimp only
    repeat' split
    all_goals exact ⟨rfl, rfl, rfl⟩
  | asking =>
    rw [World.serve.eq_def, hphase]
    dsimp only
    repeat' split
    all_goals exact ⟨rfl, rfl, rfl⟩
  | answered answer =>
    rw [World.serve.eq_def, hphase]
    exact ⟨rfl, rfl, rfl⟩
  | lost =>
    rw [World.serve.eq_def, hphase]
    exact ⟨rfl, rfl, rfl⟩
  | _ =>
    rw [hphase] at hunbegun
    exact hunbegun.elim

theorem World.Sound.conflicts (h : World.Sound sha256 w) (hr : w.requests t = some r)
    (hmem : effect ∈ w.recorded) (hkey : effect.key = r.effect.key)
    (hdiffers : effect.requestHash ≠ r.effect.requestHash ∨ effect.kind ≠ r.effect.kind) :
    r.Conflicts sha256 t w := by
  have hfits := h.requests t r hr
  have hnone : r.begun = none := by
    rw [Option.eq_none_iff_forall_ne_some]
    intro row hrow
    obtain ⟨hrowmem, hrowkey, hhash, hkind⟩ := hfits.begun row hrow
    rw [h.eq_of_key hrowmem hmem (hrowkey.trans hkey.symm)] at hhash hkind
    exact hdiffers.elim (fun hne => hne hhash) (fun hne => hne hkind)
  constructor
  · exact hnone
  · intro answer hphase
    cases answer with
    | ok response =>
      have hunbegun := hfits.unbegun hnone
      rw [hphase] at hunbegun
      exact hunbegun.elim
    | error e =>
      rcases h.refused hr hmem hkey hnone hphase with he | ⟨he, -⟩
      · exact Or.inr (congrArg Except.error he)
      · exact Or.inl (congrArg Except.error he)
  · intro reply native
    rw [World.step.eq_def]
    simp only [hr]
    exact h.serve_unchanged hr ⟨effect, hmem, hkey⟩ hnone reply native

def World.requested (w : World) : Set String :=
  { json | ∃ t r, w.requests t = some r ∧ r.launch.json = json }

/-- Managed task effects are launched once, replayed as they are recorded, fenced by their epoch and
finalized once by their holder. -/
theorem effects_fenced (sha256 : String → String) (events : List Event)
    (hhash : Set.InjOn sha256 (Run.run (World.step sha256) World.new events).requested) :
    let w := Run.run (World.step sha256) World.new events
    (∀ key, w.launches.count key ≤ 1) ∧
    (∀ effect ∈ w.recorded, ∃ t first, w.requests t = some first ∧ first.effect = effect) ∧
    (∀ t₀ first, w.requests t₀ = some first → first.effect ∈ w.recorded →
      ∀ t r, w.requests t = some r → r.effect.key = first.effect.key →
        (r.launch = first.launch → r.Replays first) ∧
        (r.launch ≠ first.launch → r.Conflicts sha256 t w)) ∧
    (w.recorded.Pairwise fun a b => a.taskId = b.taskId → a.epoch < b.epoch) ∧
    (∀ call ∈ w.finalized, ∃ row ∈ w.rows, call.Made row) ∧
    (∀ row ∈ w.rows, row.state ≠ .pending → ∃ call ∈ w.finalized, call.Made row) ∧
    (w.finalized.map FinishManagedTaskEffect.key).Nodup := by
  intro w
  have h : w.Sound sha256 := World.Sound.run sha256 events
  have hfinal : w.Final := World.Final.run sha256 events
  refine ⟨h.launched, h.source, ?_, h.ordered, hfinal.made, ?_, hfinal.once⟩
  · intro t₀ first hfirst hmem t r hr hkey
    constructor
    · exact h.replays hr hfirst hmem hkey
    · intro hlaunch
      apply h.conflicts hr hmem hkey.symm
      obtain ⟨hfirsthash, hfirstkind⟩ := (h.requests t₀ first hfirst).hashed
      obtain ⟨hrhash, hrkind⟩ := (h.requests t r hr).hashed
      by_contra hsame
      rw [not_or, not_not, not_not] at hsame
      obtain ⟨hsamehash, hsamekind⟩ := hsame
      rw [hfirsthash, hrhash] at hsamehash
      rw [hfirstkind, hrkind] at hsamekind
      have hjson := hhash ⟨t₀, first, hfirst, rfl⟩ ⟨t, r, hr, rfl⟩ hsamehash
      have hlaunches : first.launch = r.launch := by
        cases hf : first.launch
        cases hl : r.launch
        rw [hf, hl] at hjson hsamekind
        exact congrArg₂ ManagedLaunch.mk hsamekind hjson
      exact hlaunch hlaunches.symm
  · intro row hrow hstate
    obtain ⟨call, hcall, hkey⟩ := hfinal.finished row hrow hstate
    obtain ⟨row', hrow', hmade⟩ := hfinal.made call hcall
    have hsame := h.row_eq_of_key hrow' hrow (hmade.key.trans hkey)
    rw [hsame] at hmade
    exact ⟨call, hcall, hmade⟩

def sampleSha256 : String → String :=
  Equiv.swap "\x7b\"kind\":\"workspace\"\x7d"
      "2289eab3690f4b5c96035ca592cd9b954eea5e4462fc83b714b010249ebd50c5" ∘
    Equiv.swap "\x7b\"kind\":\"session\"\x7d"
      "c5bc19e66d1b49fe0b64eebb4c1407acaaef33dff8e073504078a904feda708a"

def sampleEvents : List Event :=
  let serve (t n : Nat) : List Event := List.replicate n (.step t .ok ⟨true, true⟩)
  .request 0 1 3 ⟨.workspace, "\x7b\"kind\":\"workspace\"\x7d"⟩ 10 11 12 13 :: serve 0 6 ++
    .request 1 1 3 ⟨.workspace, "\x7b\"kind\":\"workspace\"\x7d"⟩ 20 21 22 23 :: serve 1 3 ++
    .request 2 1 3 ⟨.session, "\x7b\"kind\":\"session\"\x7d"⟩ 30 31 32 33 :: serve 2 3

theorem effects_fenced_sample :
    let w := Run.run (World.step sampleSha256) World.new sampleEvents
    w.launches.count (1, 3) ≤ 1 ∧ w.launches = [(1, 3)] ∧
      (w.requests 1).map (·.phase) = some (.answered (.ok ⟨.active, some 10, some 11, none, false⟩)) ∧
      (w.requests 2).map (·.phase) = some (.answered (.error conflict)) := by
  intro w
  have hinjective : Function.Injective sampleSha256 :=
    (Equiv.injective _).comp (Equiv.injective _)
  have hfenced := effects_fenced sampleSha256 sampleEvents hinjective.injOn
  exact ⟨hfenced.1 (1, 3), by decide +kernel, by decide +kernel, by decide +kernel⟩

end Cdesktop.ManagedTask
