import Cdesktop.EntryMap
import Cdesktop.RoutineSchedule
import Mathlib.Order.Basic

namespace Cdesktop.RoutineSchedule
open Table (Reply)
set_option autoImplicit true

theorem nextFrom_congr (z : Local) {r r' : Routine} (h : r'.schedule = r.schedule) :
    r'.nextFrom z = r.nextFrom z := by
  simp only [Routine.schedule, Prod.mk.injEq] at h
  funext from_
  rw [Routine.nextFrom, Routine.nextFrom, h.1, h.2.1, h.2.2.1, h.2.2.2]

def Routine.Fresh (z : Local) (r : Routine) : Prop := ∃ from_, r.nextRunAt = r.nextFrom z from_

theorem Routine.Fresh.disabled {r : Routine} (h : r.Fresh z) (hdisabled : r.enabled = false) :
    r.nextRunAt = none := by
  obtain ⟨from_, hnext⟩ := h
  rw [hnext, Routine.nextFrom, hdisabled]
  exact computeNextRunAt_disabled z _ _ _ from_

theorem apply_schedule {payload : UpdateRoutine} (h : payload.scheduleChanged = false)
    (r : Routine) : (payload.apply r).schedule = r.schedule := by
  simp only [UpdateRoutine.scheduleChanged, Bool.or_eq_false_iff, Option.isSome_eq_false_iff,
    Option.isNone_iff_eq_none] at h
  obtain ⟨⟨⟨hkind, htime⟩, hdow⟩, henabled⟩ := h
  simp [UpdateRoutine.apply, Routine.schedule, hkind, htime, hdow, henabled]

theorem find_write (rows : List (Uuid × Routine)) (p q : Uuid) (f : Routine → Routine) :
    find (write p f rows) q = if q = p then (find rows q).map f else find rows q := by
  induction rows with
  | nil => simp [find, write, Table.update]
  | cons row rows ih =>
    have htail : find (write p f (row :: rows)) q =
        if row.1 = q then some (if row.1 = p then f row.2 else row.2)
        else find (write p f rows) q := by
      by_cases hq : row.1 = q
      · by_cases hp : row.1 = p
        · simp [find, write, Table.update, hp, hp ▸ hq]
        · simp [find, write, Table.update, hq, hq ▸ hp]
      · by_cases hp : row.1 = p
        · simp [find, write, Table.update, hp, hp ▸ hq]
        · simp [find, write, Table.update, hq, hp]
    have hfind : find (row :: rows) q = if row.1 = q then some row.2 else find rows q := by
      by_cases hq : row.1 = q <;> simp [find, hq]
    rw [htail, hfind, ih]
    by_cases hq : row.1 = q
    · subst hq
      by_cases hp : row.1 = p <;> simp [hp]
    · simp [hq]

theorem find_of_mem {rows : List (Uuid × Routine)} (hnodup : (rows.map Prod.fst).Nodup)
    (h : (p, r) ∈ rows) : find rows p = some r := by
  rw [find, EntryMap.find?_eq_lookup]
  exact (EntryMap.lookup_eq_some hnodup).2 h

/-- The update has written the schedule, or may have, and is yet to set the next run. -/
def Update.pending (u : Update) : Bool :=
  match u.phase with
  | .rereading => u.payload.scheduleChanged
  | .setting _ _ => true
  | _ => false

namespace World

def UpdatingBut (w : World) (t : Option Nat) (p : Uuid) : Prop :=
  ∃ t' u, some t' ≠ t ∧ w.updates t' = some u ∧ u.routineId = p ∧ u.pending = true

def Updating (w : World) (p : Uuid) : Prop := w.UpdatingBut none p

/-- Whoever writes a next run computed it from the schedule that is stored, and whoever writes a
schedule goes on to set the next run, but where another update is still to do so. -/
def Serial (w : World) : Event → Prop
  | .updateStep t reply _ => ∀ u, w.updates t = some u →
    match u.phase with
    | .writing => reply = .lost →
      w.UpdatingBut (some t) u.routineId ∨ ∀ r, find w.rows u.routineId = some r →
        (u.payload.apply r).schedule = r.schedule
    | .rereading => reply = .ok ∨ u.payload.scheduleChanged = false ∨
      w.UpdatingBut (some t) u.routineId
    | .setting _ seen => (reply ≠ .failed ∧ seen = w.changes u.routineId) ∨
      w.UpdatingBut (some t) u.routineId
    | _ => True
  | .loseUpdate t => ∀ u, w.updates t = some u → u.pending = true →
    w.UpdatingBut (some t) u.routineId
  | .tickStep t reply _ => ∀ k due next rest, w.ticks t = some k → k.phase = .marking due next rest →
    reply ≠ .failed → due.seen = w.changes due.routineId ∨ w.Updating due.routineId
  | _ => True

/-- What is computed from a read stands as long as the schedule did not change since. -/
def Reads (w : World) (p : Uuid) (seen : Nat) (P : Routine → Prop) : Prop :=
  seen ≤ w.changes p ∧ ∃ r, find w.rows p = some r ∧ (seen = w.changes p → P r)

def ReadDue (w : World) (due : Due) : Prop :=
  w.Reads due.routineId due.seen fun r => r.schedule = due.routine.schedule

def ReadTick (z : Local) (w : World) (k : Tick) : Prop :=
  match k.phase with
  | .firing due => ∀ d ∈ due, w.ReadDue d
  | .marking due next rest => (∃ from_, next = due.routine.nextFrom z from_) ∧ w.ReadDue due ∧
      ∀ d ∈ rest, w.ReadDue d
  | _ => True

def ReadUpdate (z : Local) (w : World) (u : Update) : Prop :=
  match u.phase with
  | .setting next seen =>
    w.Reads u.routineId seen fun r => ∃ from_, next = r.nextFrom z from_
  | _ => True

structure Kept (z : Local) (w : World) : Prop where
  ids : (w.rows.map Prod.fst).Nodup
  fresh : ∀ p r, find w.rows p = some r → r.Fresh z ∨ w.Updating p
  updates : ∀ t u, w.updates t = some u → w.ReadUpdate z u
  ticks : ∀ t k, w.ticks t = some k → w.ReadTick z k

theorem new_kept (z : Local) : new.Kept z where
  ids := List.nodup_nil
  fresh := fun p r hr => by cases hr
  updates := fun t u hu => by cases hu
  ticks := fun t k hk => by cases hk

structure Follows (w w' : World) : Prop where
  changes : ∀ p, w.changes p ≤ w'.changes p
  schedule : ∀ p r, find w.rows p = some r → ∃ r', find w'.rows p = some r' ∧
    (w'.changes p = w.changes p → r'.schedule = r.schedule)

theorem Reads.follows {P : Routine → Prop} (h : Reads w p seen P)
    (hfollows : Follows w w')
    (hP : ∀ r r' : Routine, r'.schedule = r.schedule → P r → P r') : w'.Reads p seen P := by
  obtain ⟨hle, r, hr, hsame⟩ := h
  obtain ⟨r', hr', hschedule⟩ := hfollows.schedule p r hr
  have hchanges := hfollows.changes p
  refine ⟨le_trans hle hchanges, r', hr', fun hseen => ?_⟩
  have heq : w'.changes p = w.changes p := le_antisymm (hseen ▸ hle) hchanges
  exact hP r r' (hschedule heq) (hsame (hseen.trans heq))

theorem ReadDue.follows (h : ReadDue w due) (hfollows : Follows w w') :
    w'.ReadDue due :=
  Reads.follows h hfollows (fun _ _ hschedule hsame => hschedule.trans hsame)

theorem ReadTick.follows (h : ReadTick z w k) (hfollows : Follows w w') :
    w'.ReadTick z k := by
  rw [ReadTick] at h ⊢
  split at h
  · exact fun d hd => (h d hd).follows hfollows
  · exact ⟨h.1, h.2.1.follows hfollows, fun d hd => (h.2.2 d hd).follows hfollows⟩
  · trivial

theorem ReadUpdate.follows (h : ReadUpdate z w u) (hfollows : Follows w w') :
    w'.ReadUpdate z u := by
  rw [ReadUpdate] at h ⊢
  split at h
  · apply Reads.follows h hfollows
    rintro r r' hschedule ⟨from_, hnext⟩
    exact ⟨from_, by rw [nextFrom_congr z hschedule, hnext]⟩
  · trivial

theorem Follows.of_eq (hrows : w'.rows = w.rows) (hchanges : w'.changes = w.changes) :
    Follows w w' where
  changes := fun p => le_of_eq (congrFun hchanges p).symm
  schedule := fun _ r hr => ⟨r, hrows ▸ hr, fun _ => rfl⟩

theorem Follows.write {f : Routine → Routine} (hf : ∀ r, (f r).schedule = r.schedule)
    (hrows : w'.rows = RoutineSchedule.write p f w.rows) (hchanges : w'.changes = w.changes) :
    Follows w w' where
  changes := fun q => le_of_eq (congrFun hchanges q).symm
  schedule := by
    intro q r hr
    rw [hrows, find_write]
    by_cases hq : q = p
    · rw [if_pos hq, hr]
      exact ⟨f r, rfl, fun _ => hf r⟩
    · rw [if_neg hq]
      exact ⟨r, hr, fun _ => rfl⟩

end World

theorem World.Follows.writeSchedule (w : World) (p : Uuid) (payload : UpdateRoutine) :
    w.Follows (w.writeSchedule p payload) where
  changes := by
    intro q
    cases hfind : find w.rows p with
    | none => simp [World.writeSchedule, hfind]
    | some r =>
      by_cases hsame : (payload.apply r).schedule = r.schedule
      · simp [World.writeSchedule, hfind, hsame]
      · by_cases hq : q = p
        · subst hq
          simp [World.writeSchedule, hfind, hsame]
        · simp [World.writeSchedule, hfind, hsame, hq]
  schedule := by
    intro q r hr
    simp only [World.writeSchedule, find_write]
    by_cases hq : q = p
    · subst hq
      rw [if_pos rfl, hr]
      refine ⟨payload.apply r, rfl, fun hsame => ?_⟩
      by_contra hne
      simp [hne] at hsame
    · rw [if_neg hq]
      exact ⟨r, hr, fun _ => rfl⟩

theorem map_fst_write (p : Uuid) (f : Routine → Routine) (rows : List (Uuid × Routine)) :
    (write p f rows).map Prod.fst = rows.map Prod.fst :=
  Table.update_map _ (fun _ _ _ => rfl)

theorem find_write_cases (h : find (write p f rows) q = some r) :
    (q = p ∧ ∃ r₀, find rows p = some r₀ ∧ r = f r₀) ∨ (q ≠ p ∧ find rows q = some r) := by
  rw [find_write] at h
  by_cases hq : q = p
  · subst hq
    rw [if_pos rfl] at h
    obtain ⟨r₀, hr₀, rfl⟩ := Option.map_eq_some_iff.mp h
    exact Or.inl ⟨rfl, r₀, hr₀, rfl⟩
  · rw [if_neg hq] at h
    exact Or.inr ⟨hq, h⟩

variable {w w' : World} {u : Update} {phase : UpdatePhase} {k : Tick}

theorem World.UpdatingBut.stays (h : w.UpdatingBut (some t) p)
    (hupdates : w'.updates = Function.update w.updates t (some u)) : w'.Updating p := by
  obtain ⟨t', u', ht, hu', hp, hpending⟩ := h
  have hne : t' ≠ t := fun heq => ht (congrArg some heq)
  exact ⟨t', u', by simp, by simpa [hupdates, hne] using hu', hp, hpending⟩

theorem World.Updating.cases (h : w.Updating p) (hu : w.updates t = some u) :
    (u.routineId = p ∧ u.pending = true) ∨ w.UpdatingBut (some t) p := by
  obtain ⟨t', u', -, hu', hp, hpending⟩ := h
  by_cases ht : t' = t
  · subst ht
    rw [hu] at hu'
    cases hu'
    exact Or.inl ⟨hp, hpending⟩
  · exact Or.inr ⟨t', u', fun heq => ht (Option.some.inj heq), hu', hp, hpending⟩

theorem World.Kept.setUpdate {q : Update} (h : w.Kept z)
    (hupdates : w'.updates = Function.update w.updates t (some q))
    (hticks : w'.ticks = w.ticks) (hids : w'.rows.map Prod.fst = w.rows.map Prod.fst)
    (hfollows : w.Follows w') (hread : w'.ReadUpdate z q)
    (hfresh : ∀ p r, find w'.rows p = some r → r.Fresh z ∨ w'.Updating p) : w'.Kept z where
  ids := hids ▸ h.ids
  fresh := hfresh
  updates := by
    intro t' u' hu'
    rw [hupdates] at hu'
    by_cases ht : t' = t
    · subst ht
      simp only [Function.update_self, Option.some.injEq] at hu'
      subst hu'
      exact hread
    · exact (h.updates t' u' (by simpa [ht] using hu')).follows hfollows
  ticks := by
    intro t' k hk
    rw [hticks] at hk
    exact (h.ticks t' k hk).follows hfollows

theorem World.Kept.goOn (h : w.Kept z)
    (hu : w.updates t = some u) (hread : w.ReadUpdate z { u with phase })
    (hpending : u.pending = true → Update.pending { u with phase } = true ∨
      w.UpdatingBut (some t) u.routineId) : (w.setUpdate t u phase).Kept z := by
  have hsame : w.Follows (w.setUpdate t u phase) := World.Follows.of_eq rfl rfl
  refine h.setUpdate rfl rfl rfl hsame (World.ReadUpdate.follows hread hsame) ?_
  · intro p r hr
    refine (h.fresh p r hr).imp id fun hupdating => ?_
    rcases hupdating.cases hu with ⟨rfl, hp⟩ | hbut
    · rcases hpending hp with hstill | hbut
      · exact ⟨t, { u with phase }, by simp, by simp [World.setUpdate], rfl, hstill⟩
      · exact hbut.stays rfl
    · exact hbut.stays rfl

theorem World.Kept.refuse (h : w.Kept z) (hu : w.updates t = some u)
    (hpending : u.pending = true → w.UpdatingBut (some t) u.routineId) (e : ApiError) :
    (w.refuse t u e).Kept z :=
  h.goOn hu trivial fun hp => Or.inr (hpending hp)

theorem World.Kept.writeSchedule (h : w.Kept z)
    (hu : w.updates t = some u) (hnot : u.pending = false)
    (hw' : w' = (w.writeSchedule u.routineId u.payload).setUpdate t u phase)
    (hread : w'.ReadUpdate z { u with phase })
    (hphase : phase = .rereading ∨ w.UpdatingBut (some t) u.routineId ∨
      ∀ r, find w.rows u.routineId = some r → (u.payload.apply r).schedule = r.schedule) :
    w'.Kept z := by
  subst hw'
  have hfollows := World.Follows.writeSchedule w u.routineId u.payload
  refine h.setUpdate rfl rfl (map_fst_write _ _ _) ⟨hfollows.changes, hfollows.schedule⟩ hread ?_
  · intro p r hr
    have hother : w.Updating p →
        ((w.writeSchedule u.routineId u.payload).setUpdate t u phase).Updating p := by
      intro hupdating
      rcases hupdating.cases hu with ⟨-, hp⟩ | hbut
      · rw [hnot] at hp
        cases hp
      · exact hbut.stays rfl
    rcases find_write_cases hr with ⟨rfl, r₀, hr₀, rfl⟩ | ⟨-, hold⟩
    · by_cases hschedule : (u.payload.apply r₀).schedule = r₀.schedule
      · refine (h.fresh _ r₀ hr₀).imp ?_ hother
        rintro ⟨from_, hnext⟩
        refine ⟨from_, ?_⟩
        rw [nextFrom_congr z hschedule]
        exact hnext
      · right
        rcases hphase with rfl | hbut | hsame
        · refine ⟨t, { u with phase := .rereading }, by simp, by simp [World.setUpdate], rfl, ?_⟩
          change u.payload.scheduleChanged = true
          by_contra hunchanged
          rw [Bool.not_eq_true] at hunchanged
          exact hschedule (apply_schedule hunchanged r₀)
        · exact hbut.stays rfl
        · exact absurd (hsame r₀ hr₀) hschedule
    · exact (h.fresh p r hold).imp id hother

namespace World

theorem Kept.setNext (h : w.Kept z)
    (hu : w.updates t = some u) (hphase : u.phase = .setting next seen)
    (hw' : w' = { w.setUpdate t u phase with
      rows := write u.routineId (setNextRunAt next) w.rows })
    (hread : w'.ReadUpdate z { u with phase })
    (hserial : seen = w.changes u.routineId ∨ w.UpdatingBut (some t) u.routineId) :
    w'.Kept z := by
  subst hw'
  have hcomputed := h.updates t u hu
  rw [ReadUpdate, hphase] at hcomputed
  refine h.setUpdate rfl rfl (map_fst_write _ _ _) ?_ hread ?_
  · exact Follows.write (f := setNextRunAt next) (fun _ => rfl) rfl rfl
  · intro p r hr
    rcases find_write_cases hr with ⟨rfl, r₀, hr₀, rfl⟩ | ⟨hne, hold⟩
    · rcases hserial with hseen | hbut
      · left
        obtain ⟨-, r₁, hr₁, hsame⟩ := hcomputed
        rw [hr₀] at hr₁
        cases hr₁
        obtain ⟨from_, hnext⟩ := hsame hseen
        exact ⟨from_, hnext⟩
      · exact Or.inr (hbut.stays rfl)
    · refine (h.fresh p r hold).imp id fun hupdating => ?_
      rcases hupdating.cases hu with ⟨rfl, -⟩ | hbut
      · exact absurd rfl hne
      · exact hbut.stays rfl

theorem Kept.serve (h : w.Kept z) (hu : w.updates t = some u)
    (reply : Reply) (now : Instant) (hserial : w.Serial (.updateStep t reply now)) :
    (w.serve z t u reply now).Kept z := by
  have hok := hserial u hu
  cases hphase : u.phase with
  | finding =>
    have hnot : u.pending = true → w.UpdatingBut (some t) u.routineId := by
      intro hp
      rw [Update.pending, hphase] at hp
      cases hp
    rw [serve.eq_def, hphase]
    dsimp only
    split
    · exact h.refuse hu hnot _
    · split
      · exact h.refuse hu hnot _
      · split
        · exact h.refuse hu hnot _
        · exact h.goOn hu trivial fun hp => Or.inr (hnot hp)
  | writing =>
    have hnot : u.pending = false := by
      rw [Update.pending, hphase]
    rw [hphase] at hok
    rw [serve.eq_def, hphase]
    cases reply with
    | failed =>
      apply h.refuse hu
      intro hp
      rw [hnot] at hp
      cases hp
    | ok => exact h.writeSchedule hu hnot rfl trivial (Or.inl rfl)
    | lost => exact h.writeSchedule hu hnot rfl trivial (Or.inr (hok rfl))
  | rereading =>
    rw [hphase] at hok
    have hpending : u.pending = u.payload.scheduleChanged := by
      rw [Update.pending, hphase]
    rw [serve.eq_def, hphase]
    dsimp only
    split
    · rename_i hreply
      apply h.refuse hu
      intro hp
      rcases hok with hreply' | hunchanged | hbut
      · exact absurd hreply' hreply
      · rw [hpending, hunchanged] at hp
        cases hp
      · exact hbut
    · split
      · rename_i hnone
        -- the routine of an update that is pending is there
        refine h.setUpdate rfl rfl rfl (Follows.of_eq rfl rfl) trivial ?_
        intro p r hr
        refine (h.fresh p r hr).imp id fun hupdating => ?_
        rcases hupdating.cases hu with ⟨rfl, -⟩ | hbut
        · rw [show find w.rows u.routineId = some r from hr] at hnone
          cases hnone
        · exact hbut.stays rfl
      · rename_i r hr
        split
        · apply h.goOn hu
          · exact ⟨le_refl _, r, hr, fun _ => ⟨now, rfl⟩⟩
          · exact fun _ => Or.inl rfl
        · rename_i hunchanged
          refine h.goOn hu trivial ?_
          intro hp
          rw [hpending] at hp
          exact absurd hp hunchanged
  | setting next seen =>
    rw [hphase] at hok
    rw [serve.eq_def, hphase]
    cases reply with
    | failed =>
      apply h.refuse hu
      intro _
      rcases hok with ⟨hne, -⟩ | hbut
      · exact absurd rfl hne
      · exact hbut
    | ok => exact h.setNext hu hphase rfl trivial (hok.imp (·.2) id)
    | lost => exact h.setNext hu hphase rfl trivial (hok.imp (·.2) id)
  | returning =>
    have hnot : u.pending = true → w.UpdatingBut (some t) u.routineId := by
      intro hp
      rw [Update.pending, hphase] at hp
      cases hp
    rw [serve.eq_def, hphase]
    dsimp only
    split
    · exact h.refuse hu hnot _
    · split
      · exact h.refuse hu hnot _
      · exact h.goOn hu trivial fun hp => Or.inr (hnot hp)
  | answered answer =>
    rw [serve.eq_def, hphase]
    exact h
  | lost =>
    rw [serve.eq_def, hphase]
    exact h

theorem Kept.setTick {q : Tick} (h : w.Kept z)
    (hticks : w'.ticks = Function.update w.ticks t (some q))
    (hupdates : w'.updates = w.updates) (hids : w'.rows.map Prod.fst = w.rows.map Prod.fst)
    (hfollows : w.Follows w') (hread : w.ReadTick z q)
    (hfresh : ∀ p r, find w'.rows p = some r → r.Fresh z ∨ w.Updating p) : w'.Kept z where
  ids := hids ▸ h.ids
  fresh := by
    intro p r hr
    rw [Updating, UpdatingBut, hupdates]
    exact hfresh p r hr
  updates := by
    intro t' u hu
    rw [hupdates] at hu
    exact (h.updates t' u hu).follows hfollows
  ticks := by
    intro t' k' hk'
    rw [hticks] at hk'
    by_cases ht : t' = t
    · subst ht
      simp only [Function.update_self, Option.some.injEq] at hk'
      subst hk'
      exact ReadTick.follows hread hfollows
    · exact (h.ticks t' k' (by simpa [ht] using hk')).follows hfollows

theorem Kept.goTick {phase : TickPhase} (h : w.Kept z)
    (hread : w.ReadTick z { k with phase }) : (w.setTick t k phase).Kept z :=
  h.setTick rfl rfl rfl (Follows.of_eq rfl rfl) hread h.fresh

theorem Kept.findDue (h : w.Kept z) (now : Instant) :
    ∀ due ∈ w.findDue now, w.ReadDue due := by
  intro due hdue
  obtain ⟨row, hrow, rfl⟩ := List.mem_map.mp hdue
  have hmem := (List.mem_filter.mp hrow).1
  exact ⟨le_refl _, row.2, find_of_mem h.ids hmem, fun _ => rfl⟩

theorem Kept.mark {f : Routine → Routine} (h : w.Kept z)
    (hk : w.ticks t = some k) (hphase : k.phase = .marking due next rest)
    (hf : ∀ r, (f r).schedule = r.schedule ∧ (f r).nextRunAt = next)
    (hw' : w' = { w.setTick t k (.firing rest) with rows := write due.routineId f w.rows })
    (hserial : due.seen = w.changes due.routineId ∨ w.Updating due.routineId) : w'.Kept z := by
  subst hw'
  have hread := h.ticks t k hk
  rw [ReadTick, hphase] at hread
  obtain ⟨⟨from_, hnext⟩, ⟨-, r₁, hr₁, hsame⟩, hrest⟩ := hread
  have hfollows : w.Follows { w.setTick t k (.firing rest) with
      rows := write due.routineId f w.rows } :=
    Follows.write (fun r => (hf r).1) rfl rfl
  refine h.setTick rfl rfl (map_fst_write _ _ _) hfollows hrest ?_
  intro p r hr
  rcases find_write_cases hr with ⟨rfl, r₀, hr₀, rfl⟩ | ⟨-, hold⟩
  · rcases hserial with hseen | hupdating
    · left
      have heq : r₀ = r₁ := Option.some.inj (hr₀.symm.trans hr₁)
      subst heq
      refine ⟨from_, ?_⟩
      rw [(hf r₀).2, hnext, nextFrom_congr z (hf r₀).1, nextFrom_congr z (hsame hseen)]
    · exact Or.inr hupdating
  · exact h.fresh p r hold

theorem Kept.tick (h : w.Kept z) (hk : w.ticks t = some k)
    (reply : Reply) (now : Instant) (hserial : w.Serial (.tickStep t reply now)) :
    (w.tick z t k reply now).Kept z := by
  have hread := h.ticks t k hk
  cases hphase : k.phase with
  | finding =>
    rw [tick.eq_def, hphase]
    dsimp only
    split
    · exact h.goTick trivial
    · exact h.goTick (h.findDue k.now)
  | firing due =>
    rw [ReadTick, hphase] at hread
    rw [tick.eq_def, hphase]
    cases due with
    | nil => exact h.goTick trivial
    | cons d rest =>
      apply h.goTick
      exact ⟨⟨_, rfl⟩, hread d List.mem_cons_self,
        fun d' hd' => hread d' (List.mem_cons_of_mem _ hd')⟩
  | marking due next rest =>
    have hmarked := hserial k due next rest hk hphase
    rw [ReadTick, hphase] at hread
    rw [tick.eq_def, hphase]
    dsimp only
    split
    · exact h.goTick hread.2.2
    · rename_i hreply
      apply h.mark hk hphase _ rfl (hmarked hreply)
      intro r
      split <;> exact ⟨rfl, rfl⟩
  | finished =>
    rw [tick.eq_def, hphase]
    exact h

end World

theorem find_append (rows : List (Uuid × Routine)) (row : Uuid × Routine) (q : Uuid) :
    find (rows ++ [row]) q = (find rows q).or (if row.1 = q then some row.2 else none) := by
  by_cases hq : row.1 = q <;> simp [find, List.find?_append, hq]

theorem World.Kept.create {routine : Routine} (h : w.Kept z)
    (hnew : ¬ w.rows.any (fun row => row.1 = p) = true) (hfresh : routine.Fresh z)
    (hw' : w' = { w with rows := w.rows ++ [(p, routine)] }) : w'.Kept z := by
  subst hw'
  have hfollows : w.Follows { w with rows := w.rows ++ [(p, routine)] } := by
    constructor
    · exact fun q => le_refl _
    · intro q r hr
      exact ⟨r, by simp [find_append, hr], fun _ => rfl⟩
  constructor
  · simp only [List.map_append, List.map_cons, List.map_nil]
    apply List.nodup_append.mpr
    refine ⟨h.ids, List.nodup_singleton _, fun a ha b hb => ?_⟩
    rw [List.mem_singleton] at hb
    subst hb
    rintro rfl
    obtain ⟨row, hrow, rfl⟩ := List.mem_map.mp ha
    exact hnew (List.any_eq_true.mpr ⟨row, hrow, by simp⟩)
  · intro q r hr
    rw [find_append] at hr
    cases hq : find w.rows q with
    | some r₀ =>
      rw [hq, Option.some_or, Option.some.injEq] at hr
      subst hr
      exact h.fresh q r₀ hq
    | none =>
      rw [hq, Option.none_or] at hr
      split at hr
      · cases hr
        exact Or.inl hfresh
      · cases hr
  · intro t u hu
    exact (h.updates t u hu).follows hfollows
  · intro t k hk
    exact (h.ticks t k hk).follows hfollows

theorem World.Kept.step (h : w.Kept z) (event : Event) (hserial : w.Serial event) :
    (w.step z event).Kept z := by
  cases event with
  | create p routine now =>
    rw [World.step.eq_def]
    dsimp only
    split
    · exact h
    · rename_i hnew
      exact h.create hnew ⟨now, rfl⟩ rfl
  | update t p payload =>
    rw [World.step.eq_def]
    dsimp only
    split
    · rename_i hnone
      have hfollows : w.Follows { w with
          updates := Function.update w.updates t (some ⟨p, payload, .finding⟩) } :=
        World.Follows.of_eq rfl rfl
      refine h.setUpdate rfl rfl rfl hfollows trivial ?_
      intro q r hr
      refine (h.fresh q r hr).imp id ?_
      rintro ⟨t', u, ht, hu, hq, hpending⟩
      have hne : t' ≠ t := by
        rintro rfl
        rw [hnone] at hu
        cases hu
      exact ⟨t', u, ht, by simpa [hne] using hu, hq, hpending⟩
    · exact h
  | updateStep t reply now =>
    rw [World.step.eq_def]
    dsimp only
    split
    · exact h
    · rename_i u hu
      exact h.serve hu reply now hserial
  | loseUpdate t =>
    rw [World.step.eq_def]
    dsimp only
    split
    · exact h
    · rename_i u hu
      split
      · exact h
      · exact h.goOn hu trivial fun hp => Or.inr (hserial u hu hp)
  | tick t boot now =>
    rw [World.step.eq_def]
    dsimp only
    split
    · exact h.setTick rfl rfl rfl (World.Follows.of_eq rfl rfl) trivial h.fresh
    · exact h
  | tickStep t reply now =>
    rw [World.step.eq_def]
    dsimp only
    split
    · exact h
    · rename_i k hk
      exact h.tick hk reply now hserial
  | loseTick t =>
    rw [World.step.eq_def]
    dsimp only
    split
    · exact h
    · exact h.goTick trivial

theorem tick_schedule (z : Local) (w : World) (t : Nat) (reply : Reply) (now : Instant)
    (h : find w.rows p = some r) : ∃ r', find (w.step z (.tickStep t reply now)).rows p = some r' ∧
      r'.schedule = r.schedule := by
  rw [World.step.eq_def]
  dsimp only
  split
  · exact ⟨r, h, rfl⟩
  · rename_i k hk
    cases hphase : k.phase with
    | finding =>
      rw [World.tick.eq_def, hphase]
      dsimp only
      split <;> exact ⟨r, h, rfl⟩
    | firing due =>
      rw [World.tick.eq_def, hphase]
      cases due <;> exact ⟨r, h, rfl⟩
    | marking due next rest =>
      rw [World.tick.eq_def, hphase]
      dsimp only
      split
      · exact ⟨r, h, rfl⟩
      · dsimp only
        rw [find_write]
        split
        · rw [h]
          refine ⟨_, rfl, ?_⟩
          split <;> rfl
        · exact ⟨r, h, rfl⟩
    | finished =>
      rw [World.tick.eq_def, hphase]
      exact ⟨r, h, rfl⟩

/-- As long as whoever writes a next run computed it from the stored schedule, the next run of a
routine follows its schedule whenever no update is yet to set it, and a tick that goes on with a
routine read the schedule that is stored. -/
theorem no_lost_schedule_update (z : Local) (events : List Event)
    (hserial : Run.Each (World.step z) World.Serial World.new events) :
    let w := Run.run (World.step z) World.new events
    (∀ p r, find w.rows p = some r → ¬ w.Updating p →
      (∃ from_, r.nextRunAt = computeNextRunAt z r.scheduleKind r.scheduleTime r.scheduleDow r.enabled
        from_) ∧ (r.enabled = false → r.nextRunAt = none)) ∧
    ∀ t reply now,
      (∀ p r, find w.rows p = some r → ∃ r', find (w.step z (.tickStep t reply now)).rows p = some r' ∧
        r'.schedule = r.schedule) ∧
      ∀ k due next rest r, w.ticks t = some k → k.phase = .marking due next rest →
        w.Serial (.tickStep t reply now) → reply ≠ .failed → ¬ w.Updating due.routineId →
        find w.rows due.routineId = some r → due.routine.schedule = r.schedule := by
  intro w
  have h : w.Kept z :=
    Run.Each.preserves (P := World.Kept z) (fun w event h hok => h.step event hok)
      (World.new_kept z) hserial
  refine ⟨fun p r hr hnot => ?_, fun t reply now => ⟨fun p r hr => ?_, ?_⟩⟩
  · have hfresh := (h.fresh p r hr).resolve_right hnot
    exact ⟨hfresh, hfresh.disabled⟩
  · exact tick_schedule z w t reply now hr
  · intro k due next rest r hk hphase hok hreply hnot hr
    have hseen := (hok k due next rest hk hphase hreply).resolve_right hnot
    have hread := h.ticks t k hk
    rw [World.ReadTick, hphase] at hread
    obtain ⟨-, r₁, hr₁, hsame⟩ := hread.2.1
    have heq : r = r₁ := Option.some.inj (hr.symm.trans hr₁)
    subst heq
    exact (hsame hseen).symm

def utc : Local where
  offset := fun _ => 0
  fromLocalDatetime := .single

def hourlyRoutine : Routine where
  scheduleKind := .hourly
  scheduleTime := some "30"
  scheduleDow := none
  enabled := true
  nextRunAt := none
  lastRunAt := none

/-- An update of an hourly routine to another minute. -/
theorem no_lost_schedule_update_sample :
    let update : Event := .updateStep 0 .ok (10 * minute)
    let w := Run.run (World.step utc) World.new [.create 7 hourlyRoutine 0,
      .update 0 7 ⟨none, some "45", none, none⟩, update, update, update, update, update]
    ∃ r, find w.rows 7 = some r ∧ r.nextRunAt = some (45 * minute) ∧
      ∃ from_, r.nextRunAt = computeNextRunAt utc r.scheduleKind r.scheduleTime r.scheduleDow
        r.enabled from_ := by
  intro update w
  have hserial : Run.Each (World.step utc) World.Serial World.new [.create 7 hourlyRoutine 0,
      .update 0 7 ⟨none, some "45", none, none⟩, update, update, update, update, update] := by
    refine ⟨trivial, trivial, fun u hu => ?_, fun u hu => ?_, fun u hu => ?_, fun u hu => ?_,
      fun u hu => ?_, trivial⟩
    · cases hu
      trivial
    · cases hu
      intro hlost
      cases hlost
    · cases hu
      exact Or.inl rfl
    · cases hu
      exact Or.inl ⟨by decide, rfl⟩
    · cases hu
      trivial
  have hkept := no_lost_schedule_update utc _ hserial
  refine ⟨⟨.hourly, some "45", none, true, some (45 * minute), none⟩, by decide +kernel, rfl, ?_⟩
  apply (hkept.1 7 _ (by decide +kernel) _).1
  rintro ⟨t, u, -, hu, -, hpending⟩
  match t with
  | 0 =>
    cases hu
    cases hpending
  | t + 1 => cases hu

def lostUpdate : List Event :=
  let update : Event := .updateStep 0 .ok (32 * minute)
  let tick : Event := .tickStep 0 .ok (32 * minute)
  [.create 7 hourlyRoutine 0, .tick 0 false (31 * minute), tick,
    .update 0 7 ⟨some .manual, none, none, none⟩, update, update, update, update, update, tick, tick]

/-- A manual routine is left with a next run, which fires. -/
theorem lost_schedule_update :
    let w := Run.run (World.step utc) World.new lostUpdate
    w.findDue (90 * minute) ≠ [] ∧
      ∃ r, find w.rows 7 = some r ∧ r.scheduleKind = .manual ∧ r.enabled = true ∧
        (∀ from_, r.nextRunAt ≠ computeNextRunAt utc r.scheduleKind r.scheduleTime r.scheduleDow
          r.enabled from_) ∧
        (w.updates 0).map (·.phase) = some (.answered (.ok { r with
          nextRunAt := none
          lastRunAt := none })) := by
  intro w
  refine ⟨by decide +kernel, ⟨.manual, some "30", none, true, some (90 * minute), some (31 * minute)⟩,
    by decide +kernel, rfl, rfl, fun from_ hnext => ?_, by decide +kernel⟩
  cases hnext

end Cdesktop.RoutineSchedule
