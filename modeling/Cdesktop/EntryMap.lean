import Mathlib.Data.List.Nodup

/-! Hash maps, as the list of their entries in the order in which they are walked. -/

set_option autoImplicit true

structure EntryMap (κ ν : Type) where
  entries : List (κ × ν)
  nodup : (entries.map (·.1)).Nodup

namespace EntryMap
variable [DecidableEq κ]

def empty : EntryMap κ ν := ⟨[], List.nodup_nil⟩

def lookup (k : κ) : List (κ × ν) → Option ν
  | [] => none
  | e :: entries => if e.1 = k then some e.2 else lookup k entries

theorem find?_eq_lookup (entries : List (κ × ν)) (k : κ) :
    (entries.find? (·.1 = k)).map (·.2) = lookup k entries := by
  induction entries with
  | nil => rfl
  | cons e entries ih =>
    rw [lookup, ← ih, List.find?_cons]
    by_cases he : e.1 = k <;> simp [he]

def get? (m : EntryMap κ ν) (k : κ) : Option ν := lookup k m.entries

def isEmpty (m : EntryMap κ ν) : Bool := m.entries.isEmpty

def insertEntry (k : κ) (v : ν) : List (κ × ν) → List (κ × ν)
  | [] => [(k, v)]
  | e :: entries => if e.1 = k then (k, v) :: entries else e :: insertEntry k v entries

theorem insertEntry_keys {k' : κ} (entries : List (κ × ν)) :
    k' ∈ (insertEntry k v entries).map (·.1) ↔ k' = k ∨ k' ∈ entries.map (·.1) := by
  induction entries with
  | nil => simp [insertEntry]
  | cons e entries ih =>
    rw [insertEntry]
    split
    · rename_i he
      simp only [List.map_cons, List.mem_cons, he, or_self_left]
    · simp only [List.map_cons, List.mem_cons, ih, or_left_comm]

variable {entries : List (κ × ν)}

theorem insertEntry_nodup (h : (entries.map (·.1)).Nodup) :
    ((insertEntry k v entries).map (·.1)).Nodup := by
  induction entries with
  | nil => exact List.nodup_singleton _
  | cons e entries ih =>
    rw [List.map_cons, List.nodup_cons] at h
    rw [insertEntry]
    split
    · rename_i he
      rw [List.map_cons, List.nodup_cons]
      exact ⟨he ▸ h.1, h.2⟩
    · rename_i he
      rw [List.map_cons, List.nodup_cons, insertEntry_keys]
      exact ⟨fun hor => hor.elim he h.1, ih h.2⟩

def insert (k : κ) (v : ν) (m : EntryMap κ ν) : EntryMap κ ν :=
  ⟨insertEntry k v m.entries, insertEntry_nodup m.nodup⟩

def remove (k : κ) (m : EntryMap κ ν) : EntryMap κ ν :=
  ⟨m.entries.filter fun e => e.1 ≠ k, m.nodup.sublist (List.filter_sublist.map _)⟩

def mapValues (f : ν → μ) (m : EntryMap κ ν) : EntryMap κ μ :=
  ⟨m.entries.map fun e => (e.1, f e.2), by simpa [Function.comp_def] using m.nodup⟩

@[simp] theorem get?_empty (k : κ) : (empty : EntryMap κ ν).get? k = none := rfl

theorem lookup_insertEntry (entries : List (κ × ν)) (k k' : κ) (v : ν) :
    lookup k' (insertEntry k v entries) = if k' = k then some v else lookup k' entries := by
  induction entries with
  | nil => simp only [insertEntry, lookup, eq_comm]
  | cons e entries ih =>
    rw [insertEntry]
    split
    · rename_i he
      simp only [lookup, he, eq_comm]
      split <;> rfl
    · rename_i he
      rw [lookup, lookup, ih]
      split
      · rename_i hek
        exact (if_neg fun hk => he (hek.trans hk)).symm
      · rfl

theorem get?_insert (m : EntryMap κ ν) (k k' : κ) (v : ν) :
    (m.insert k v).get? k' = if k' = k then some v else m.get? k' :=
  lookup_insertEntry m.entries k k' v

theorem lookup_eq_some (hn : (entries.map (·.1)).Nodup) :
    lookup k entries = some v ↔ (k, v) ∈ entries := by
  induction entries with
  | nil => simp [lookup]
  | cons e entries ih =>
    rw [List.map_cons, List.nodup_cons] at hn
    rw [lookup, List.mem_cons]
    split
    · rename_i he
      have hnot : (k, v) ∉ entries := fun hmem => hn.1 (he ▸ List.mem_map_of_mem hmem)
      rw [or_iff_left hnot]
      simp [Prod.ext_iff, he, eq_comm]
    · rename_i he
      rw [ih hn.2, or_iff_right fun heq : (k, v) = e => he (heq ▸ rfl)]

theorem get?_eq_some {m : EntryMap κ ν} : m.get? k = some v ↔ (k, v) ∈ m.entries :=
  lookup_eq_some m.nodup

theorem lookup_eq_none : lookup k entries = none ↔ k ∉ entries.map (·.1) := by
  induction entries with
  | nil => simp [lookup]
  | cons e entries ih =>
    rw [lookup, List.map_cons, List.mem_cons, not_or, ← ih]
    split
    · rename_i he
      simp [he]
    · rename_i he
      exact (and_iff_right (Ne.symm he)).symm

theorem get?_remove {m : EntryMap κ ν} :
    (m.remove k).get? k' = some v ↔ k' ≠ k ∧ m.get? k' = some v := by
  rw [get?_eq_some, get?_eq_some]
  simp [remove, and_comm]

theorem isEmpty_iff {m : EntryMap κ ν} : m.isEmpty = true ↔ ∀ k, m.get? k = none := by
  rw [isEmpty, List.isEmpty_iff]
  constructor
  · intro hnil k
    rw [get?, hnil]
    rfl
  · intro h
    refine List.eq_nil_iff_forall_not_mem.mpr fun e he => ?_
    have hget := get?_eq_some.mpr he
    rw [h] at hget
    cases hget

/-- A loop over entries that puts a value in at each key, made of the entry and of what is there. -/
def walk (f : κ → Option μ → ν → Option μ) (entries : List (κ × ν)) (acc : EntryMap κ μ) :
    EntryMap κ μ :=
  entries.foldl (fun acc e =>
    match f e.1 (acc.get? e.1) e.2 with
    | some v => acc.insert e.1 v
    | none => acc) acc

theorem lookup_walk (f : κ → Option μ → ν → Option μ)
    (hn : (entries.map (·.1)).Nodup) (acc : EntryMap κ μ) (k : κ) :
    (walk f entries acc).get? k =
      ((lookup k entries).bind (f k (acc.get? k))).or (acc.get? k) := by
  induction entries generalizing acc with
  | nil => rfl
  | cons e entries ih =>
    rw [List.map_cons, List.nodup_cons] at hn
    have hstep : walk f (e :: entries) acc = walk f entries (match f e.1 (acc.get? e.1) e.2 with
        | some v => acc.insert e.1 v
        | none => acc) := rfl
    rw [hstep, ih hn.2, lookup]
    by_cases he : e.1 = k
    · subst he
      rw [if_pos rfl, lookup_eq_none.2 hn.1]
      cases hf : f e.1 (acc.get? e.1) e.2 with
      | none => simp [hf]
      | some v => simp [hf, get?_insert]
    · rw [if_neg he]
      cases f e.1 (acc.get? e.1) e.2 with
      | none => rfl
      | some v => simp only [get?_insert, if_neg (Ne.symm he)]

theorem get?_walk (f : κ → Option μ → ν → Option μ) (m : EntryMap κ ν) (acc : EntryMap κ μ)
    (k : κ) : (walk f m.entries acc).get? k =
      ((m.get? k).bind (f k (acc.get? k))).or (acc.get? k) :=
  lookup_walk f m.nodup acc k

end EntryMap
