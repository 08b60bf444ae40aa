import Cdesktop.Table
import Mathlib.Data.List.MinMax

namespace Keyset
set_option autoImplicit true

variable [LinearOrder κ]

/-- The rows whose key is past the last one seen. -/
def behind (key : α → κ) (previous : Option κ) (rows : List α) : List α :=
  rows.filter fun r => previous.all fun k => decide (k < key r)

/-- `WHERE key > previous ORDER BY key LIMIT 1`. -/
def next (key : α → κ) (previous : Option κ) (rows : List α) : Option α :=
  (behind key previous rows).argmin key

/-- The rows seen one after the other, each query going on behind the row before. -/
def walk (key : α → κ) (rows : List α) : Nat → Option κ → List α
  | 0, _ => []
  | fuel + 1, previous =>
    match next key previous rows with
    | none => []
    | some r => r :: walk key rows fuel (some (key r))

theorem behind_none (key : α → κ) (rows : List α) : behind key none rows = rows := by
  simp [behind]

variable {key : α → κ}

theorem mem_behind :
    r ∈ behind key previous rows ↔ r ∈ rows ∧ ∀ k ∈ previous, k < key r := by
  cases previous <;> simp [behind]

theorem next_eq_none : next key previous rows = none ↔
    behind key previous rows = [] :=
  List.argmin_eq_none

theorem next_mem (h : next key previous rows = some r) :
    r ∈ behind key previous rows :=
  List.argmin_mem h

theorem next_le (h : next key previous rows = some r)
    (hr : r' ∈ behind key previous rows) : key r ≤ key r' :=
  List.le_of_mem_argmin hr h

theorem behind_next (h : next key previous rows = some r) :
    behind key (some (key r)) rows =
      (behind key previous rows).filter fun r' => decide (key r < key r') := by
  have hr := (mem_behind.mp (next_mem h)).2
  simp only [behind, List.filter_filter]
  apply List.filter_congr
  intro r' _
  cases previous with
  | none => simp
  | some k =>
    have hk := hr k rfl
    simp only [Option.all_some, Bool.and_eq_decide, decide_eq_decide, decide_eq_true_eq]
    constructor
    · intro hlt
      exact ⟨hlt, hk.trans hlt⟩
    · intro hlt
      exact hlt.1

theorem behind_perm (hkeys : (rows.map key).Nodup) (h : next key previous rows = some r) :
    (behind key previous rows).Perm (r :: behind key (some (key r)) rows) := by
  have hnodup : (behind key previous rows).Nodup := hkeys.of_map.filter _
  have hself : (behind key previous rows).filter (fun r' => !decide (key r < key r')) = [r] := by
    have hle := Table.length_filter_le_one (p := fun r' => !decide (key r < key r')) hnodup ?_
    · have hmem : r ∈ (behind key previous rows).filter (fun r' => !decide (key r < key r')) :=
        List.mem_filter.mpr ⟨next_mem h, by simp⟩
      generalize (behind key previous rows).filter (fun r' => !decide (key r < key r')) = l at *
      match l, hle, hmem with
      | [r'], _, hmem => rw [List.mem_singleton.mp hmem]
    · intro a ha b hb hap hbp
      have hka : key a = key r := le_antisymm (by simpa using hap) (next_le h ha)
      have hkb : key b = key r := le_antisymm (by simpa using hbp) (next_le h hb)
      exact Table.eq_of_key hkeys (mem_behind.mp ha).1 (mem_behind.mp hb).1 (hka.trans hkb.symm)
  have hperm := List.filter_append_perm (fun r' => decide (key r < key r'))
    (behind key previous rows)
  rw [hself, ← behind_next h] at hperm
  exact hperm.symm.trans List.perm_append_comm

theorem walk_perm (hkeys : (rows.map key).Nodup)
    (hfuel : (behind key previous rows).length ≤ fuel) :
    (walk key rows fuel previous).Perm (behind key previous rows) := by
  induction fuel generalizing previous with
  | zero =>
    rw [List.eq_nil_of_length_eq_zero (Nat.le_zero.mp hfuel)]
    exact List.Perm.refl _
  | succ fuel ih =>
    rw [walk]
    cases h : next key previous rows with
    | none => rw [next_eq_none.mp h]
    | some r =>
      have hperm := behind_perm hkeys h
      have hlen := hperm.length_eq
      rw [List.length_cons] at hlen
      exact ((ih (by omega)).cons r).trans hperm.symm

theorem walk_sorted (rows : List α) (fuel : Nat) (previous : Option κ) :
    (walk key rows fuel previous).Pairwise (fun r r' => key r < key r') ∧
      ∀ r ∈ walk key rows fuel previous, ∀ k ∈ previous, k < key r := by
  induction fuel generalizing previous with
  | zero => simp [walk]
  | succ fuel ih =>
    rw [walk]
    cases h : next key previous rows with
    | none => simp
    | some r =>
      obtain ⟨hsorted, hpast⟩ := ih (some (key r))
      have hr := (mem_behind.mp (next_mem h)).2
      refine ⟨List.Pairwise.cons (fun r' hr' => hpast r' hr' _ rfl) hsorted, ?_⟩
      intro r' hr' k hk
      cases hr' with
      | head => exact hr k hk
      | tail _ hr' => exact (hr k hk).trans (hpast r' hr' _ rfl)

end Keyset
