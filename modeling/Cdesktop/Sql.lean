import Mathlib.Data.List.Dedup
import Mathlib.Data.List.MinMax
import Mathlib.Order.Lattice

/-! Queries as functions of the tables. A null is `none`, and a condition selects where it is true. -/

namespace Sql
set_option autoImplicit true

/-- `LEFT JOIN … ON on` -/
def leftJoin (on : α → β → Bool) (l : List α) (r : List β) : List (α × Option β) :=
  l.flatMap fun a =>
    match r.filter (on a) with
    | [] => [(a, none)]
    | bs => bs.map fun b => (a, some b)

def join (on : α → β → Bool) (l : List α) (r : List β) : List (α × β) :=
  l.flatMap fun a => (r.filter (on a)).map fun b => (a, b)

def groupBy [DecidableEq κ] (key : α → κ) (rows : List α) : List (List α) :=
  (rows.map key).dedup.map fun k => rows.filter fun r => key r = k

/-- The scalar `max`, which is null where one of its arguments is. -/
def scalarMax [Max α] : Option α → Option α → Option α
  | some a, some b => some (max a b)
  | _, _ => none

/-- The aggregate `MAX`, which leaves nulls out. -/
def aggregateMax [Max α] (values : List (Option α)) : Option α := (values.filterMap id).max?

/-- `a > b` is true, neither false nor null. -/
def Greater [LT α] : Option α → Option α → Prop
  | some a, some b => b < a
  | _, _ => False

instance [LT α] [DecidableLT α] : ∀ a b : Option α, Decidable (Greater a b)
  | some a, some b => inferInstanceAs (Decidable (b < a))
  | some _, none => isFalse id
  | none, _ => isFalse id

theorem mem_leftJoin {on : α → β → Bool} {l : List α} {r : List β} {row : α × Option β} :
    row ∈ leftJoin on l r ↔ row.1 ∈ l ∧
      ((∃ b ∈ r, on row.1 b = true ∧ row.2 = some b) ∨
        (∀ b ∈ r, on row.1 b = false) ∧ row.2 = none) := by
  obtain ⟨a, o⟩ := row
  rw [leftJoin, List.mem_flatMap]
  constructor
  · rintro ⟨a', ha, hrow⟩
    split at hrow
    · rename_i hnil
      cases List.mem_singleton.mp hrow
      refine ⟨ha, .inr ⟨fun b hb => ?_, rfl⟩⟩
      simpa using List.filter_eq_nil_iff.mp hnil b hb
    · obtain ⟨b, hb, heq⟩ := List.mem_map.mp hrow
      cases heq
      obtain ⟨hb, hon⟩ := List.mem_filter.mp hb
      exact ⟨ha, .inl ⟨b, hb, hon, rfl⟩⟩
  · rintro ⟨ha, ⟨b, hb, hon, heq⟩ | ⟨hnone, heq⟩⟩
    · have hmem : b ∈ r.filter (on a) := List.mem_filter.mpr ⟨hb, hon⟩
      refine ⟨a, ha, ?_⟩
      split
      · rename_i hnil
        rw [hnil] at hmem
        cases hmem
      · exact List.mem_map.mpr ⟨b, hmem, Prod.ext rfl heq.symm⟩
    · refine ⟨a, ha, ?_⟩
      rw [List.filter_eq_nil_iff.mpr fun b hb => by rw [hnone b hb]; exact Bool.false_ne_true]
      exact List.mem_singleton.mpr (Prod.ext rfl heq)

theorem exists_leftJoin (on : α → β → Bool) {l : List α} (r : List β) {a : α} (ha : a ∈ l) :
    ∃ o, (a, o) ∈ leftJoin on l r := by
  by_cases hmatch : ∃ b ∈ r, on a b = true
  · obtain ⟨b, hb, hon⟩ := hmatch
    exact ⟨some b, mem_leftJoin.mpr ⟨ha, .inl ⟨b, hb, hon, rfl⟩⟩⟩
  · refine ⟨none, mem_leftJoin.mpr ⟨ha, .inr ⟨fun b hb => ?_, rfl⟩⟩⟩
    exact Bool.eq_false_iff.mpr fun hon => hmatch ⟨b, hb, hon⟩

theorem mem_join {on : α → β → Bool} {l : List α} {r : List β} {row : α × β} :
    row ∈ join on l r ↔ row.1 ∈ l ∧ row.2 ∈ r ∧ on row.1 row.2 = true := by
  obtain ⟨a, b⟩ := row
  simp only [join, List.mem_flatMap, List.mem_map, List.mem_filter, Prod.mk.injEq]
  constructor
  · rintro ⟨a', ha, b', ⟨hb, hon⟩, rfl, rfl⟩
    exact ⟨ha, hb, hon⟩
  · rintro ⟨ha, hb, hon⟩
    exact ⟨a, ha, b, ⟨hb, hon⟩, rfl, rfl⟩

theorem mem_groupBy [DecidableEq κ] {key : α → κ} {rows group : List α} :
    group ∈ groupBy key rows ↔ ∃ r ∈ rows, group = rows.filter fun r' => key r' = key r := by
  simp only [groupBy, List.mem_map, List.mem_dedup]
  constructor
  · rintro ⟨_, ⟨r, hr, rfl⟩, rfl⟩
    exact ⟨r, hr, rfl⟩
  · rintro ⟨r, hr, rfl⟩
    exact ⟨_, ⟨r, hr, rfl⟩, rfl⟩

theorem greater_aggregateMax [LinearOrder α] {c : α} {values : List (Option α)} :
    Greater (some c) (aggregateMax values) ↔
      (∃ x, some x ∈ values) ∧ ∀ x, some x ∈ values → x < c := by
  have hmem : ∀ x, x ∈ values.filterMap id ↔ some x ∈ values := by simp
  rw [aggregateMax]
  cases hmax : (values.filterMap id).max? with
  | none =>
    rw [List.max?_eq_none_iff] at hmax
    refine ⟨False.elim, fun ⟨⟨x, hx⟩, _⟩ => ?_⟩
    rw [← hmem, hmax] at hx
    cases hx
  | some m =>
    obtain ⟨hm, hle⟩ := List.max?_eq_some_iff.mp hmax
    constructor
    · exact fun hlt => ⟨⟨m, (hmem m).mp hm⟩, fun x hx => (hle x ((hmem x).mpr hx)).trans_lt hlt⟩
    · exact fun h => h.2 m ((hmem m).mp hm)

end Sql
