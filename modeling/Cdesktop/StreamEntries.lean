import Cdesktop.Replay
import Mathlib.Data.List.Sort

namespace Cdesktop.StreamEntries
open Replay
set_option autoImplicit true

/-- The two operations fail alike on a path that the document does not have. -/
inductive PatchError where
  | missingError

/-- The library's `applyPatch`, with a single operation. -/
abbrev ApplyPatch (α : Type) := PatchOperation α → List α → Option PatchError × List α

/-- The rules it documents. What an add past the end does is left open. -/
structure ApplyPatch.Documented (applyPatch : ApplyPatch α) : Prop where
  add : ∀ i value target, i ≤ target.length →
    applyPatch (.add (.index i) value) target = (none, target.insertIdx i value)
  append : ∀ value target, applyPatch (.add .last value) target = (none, target ++ [value])
  replace : ∀ i value target, applyPatch (.replace (.index i) value) target =
    if i < target.length then (none, target.set i value) else (some .missingError, target)
  remove : ∀ i target, applyPatch (.remove (.index i)) target =
    if i < target.length then (none, target.eraseIdx i) else (some .missingError, target)

def applyUpsert (applyPatch : ApplyPatch α) (target : List α)
    (op : PatchOperation α) : List α :=
  let (error, target) := applyPatch op target
  match op, error with
  | .replace path value, some .missingError => (applyPatch (.add path value) target).2
  | _, _ => target

def applyUpsertPatch (applyPatch : ApplyPatch α) (target : List α)
    (ops : List (PatchOperation α)) : List α :=
  ops.foldl (applyUpsert applyPatch) target

/-- `Map.set`: a key keeps its place. -/
def setIndex (indices : List (EntryPath × Nat)) (path : EntryPath) (i : Nat) :
    List (EntryPath × Nat) :=
  if path ∈ indices.map (·.1) then indices.map fun e => if e.1 = path then (path, i) else e
  else indices ++ [(path, i)]

def lastIndexByPath (ops : List (PatchOperation α)) : List (EntryPath × Nat) :=
  ops.zipIdx.foldl (fun indices p => setIndex indices p.1.path p.2) []

def keptIndices (ops : List (PatchOperation α)) : List Nat :=
  ((lastIndexByPath ops).map (·.2)).mergeSort (· ≤ ·)

def dedupeOps (ops : List (PatchOperation α)) : List (PatchOperation α) :=
  (keptIndices ops).filterMap fun i => ops[i]?

def flush (applyPatch : ApplyPatch α) (entries : List α)
    (pendingOps : List (PatchOperation α)) : List α :=
  applyUpsertPatch applyPatch entries (dedupeOps pendingOps)

variable {path : EntryPath} {i : Nat} {ops : List (PatchOperation α)} {op : PatchOperation α}
  {view view' : View} {entries entries' client : List α}

theorem mem_setIndex {indices : List (EntryPath × Nat)} {q : EntryPath} {j : Nat} :
    (q, j) ∈ setIndex indices path i ↔ q = path ∧ j = i ∨ q ≠ path ∧ (q, j) ∈ indices := by
  rw [setIndex]
  split
  · rename_i hp
    obtain ⟨⟨_, k⟩, hk, rfl⟩ := List.mem_map.1 hp
    simp only [List.mem_map]
    constructor
    · rintro ⟨⟨p, l⟩, hl, he⟩
      split at he
      · rename_i hpath
        cases he
        exact .inl ⟨rfl, rfl⟩
      · rename_i hpath
        cases he
        exact .inr ⟨hpath, hl⟩
    · rintro (⟨rfl, rfl⟩ | ⟨hq, hm⟩)
      · exact ⟨_, hk, if_pos rfl⟩
      · exact ⟨_, hm, if_neg hq⟩
  · rename_i hp
    simp only [List.mem_append, List.mem_singleton, Prod.mk.injEq]
    constructor
    · rintro (hm | he)
      · exact .inr ⟨fun h => hp (h ▸ List.mem_map_of_mem hm), hm⟩
      · exact .inl he
    · rintro (he | ⟨-, hm⟩)
      · exact .inr he
      · exact .inl hm

theorem setIndex_keys {indices : List (EntryPath × Nat)} (h : (indices.map (·.1)).Nodup)
    (path : EntryPath) (i : Nat) : ((setIndex indices path i).map (·.1)).Nodup := by
  rw [setIndex]
  split
  · have hkeys : (indices.map fun e => if e.1 = path then (path, i) else e).map (·.1) =
        indices.map (·.1) := by
      rw [List.map_map]
      apply List.map_congr_left
      rintro ⟨p, l⟩ -
      by_cases hp : p = path <;> simp [hp]
    rw [hkeys]
    exact h
  · rename_i hp
    rw [List.map_append, List.map_singleton, List.nodup_append]
    refine ⟨h, List.nodup_singleton _, fun p hm q hq he => hp ?_⟩
    rw [he, List.mem_singleton.1 hq] at hm
    exact hm

theorem lastIndexByPath_concat (ops : List (PatchOperation α)) (op : PatchOperation α) :
    lastIndexByPath (ops ++ [op]) = setIndex (lastIndexByPath ops) op.path ops.length := by
  simp [lastIndexByPath, List.zipIdx_append]

def IsLast (ops : List (PatchOperation α)) (path : EntryPath) (i : Nat) : Prop :=
  (ops[i]?.map PatchOperation.path = some path) ∧
    ∀ j, i < j → ops[j]?.map PatchOperation.path ≠ some path

theorem isLast_concat
    : IsLast (ops ++ [op]) path i ↔
      path = op.path ∧ i = ops.length ∨ path ≠ op.path ∧ IsLast ops path i := by
  have hlt : ∀ j < ops.length, (ops ++ [op])[j]? = ops[j]? := fun j hj =>
    List.getElem?_append_left hj
  have hlength : (ops ++ [op])[ops.length]? = some op := List.getElem?_concat_length
  have hgt : ∀ j, ops.length < j → (ops ++ [op])[j]? = none := fun j hj => by
    rw [List.getElem?_eq_none_iff, List.length_append, List.length_singleton]
    omega
  constructor
  · rintro ⟨hi, hlast⟩
    obtain hlti | rfl | hgti := Nat.lt_trichotomy i ops.length
    · refine .inr ⟨fun h => ?_, ?_, fun j hj hp => ?_⟩
      · exact hlast _ hlti (by rw [hlength, h, Option.map_some])
      · rwa [hlt i hlti] at hi
      · have hjl : j < ops.length := by
          by_contra hc
          rw [List.getElem?_eq_none (Nat.le_of_not_lt hc)] at hp
          cases hp
        exact hlast j hj (by rwa [hlt j hjl])
    · rw [hlength] at hi
      exact .inl ⟨(Option.some.inj hi).symm, rfl⟩
    · rw [hgt i hgti] at hi
      cases hi
  · rintro (⟨rfl, rfl⟩ | ⟨hne, hi, hlast⟩)
    · refine ⟨by rw [hlength, Option.map_some], fun j hj hp => ?_⟩
      rw [hgt j hj] at hp
      cases hp
    · have hlti : i < ops.length := by
        by_contra hc
        rw [List.getElem?_eq_none (Nat.le_of_not_lt hc)] at hi
        cases hi
      refine ⟨by rwa [hlt i hlti], fun j hj hp => ?_⟩
      obtain hltj | rfl | hgtj := Nat.lt_trichotomy j ops.length
      · rw [hlt j hltj] at hp
        exact hlast j hj hp
      · rw [hlength] at hp
        exact hne (Option.some.inj hp).symm
      · rw [hgt j hgtj] at hp
        cases hp

theorem mem_lastIndexByPath :
    (path, i) ∈ lastIndexByPath ops ↔ IsLast ops path i := by
  induction ops using List.reverseRecOn with
  | nil => simp [lastIndexByPath, IsLast]
  | append_singleton ops op ih => rw [lastIndexByPath_concat, mem_setIndex, isLast_concat, ih]

theorem lastIndexByPath_keys (ops : List (PatchOperation α)) :
    ((lastIndexByPath ops).map (·.1)).Nodup := by
  induction ops using List.reverseRecOn with
  | nil => simp [lastIndexByPath]
  | append_singleton ops op ih =>
    rw [lastIndexByPath_concat]
    exact setIndex_keys ih _ _

/-- Whether a later operation of the batch has the path. -/
def superseded (op : PatchOperation α) (later : List (PatchOperation α)) : Bool :=
  later.any fun o => o.path = op.path

def unsuperseded : List (PatchOperation α) → List Nat
  | [] => []
  | op :: ops =>
    if superseded op ops then (unsuperseded ops).map (· + 1)
    else 0 :: (unsuperseded ops).map (· + 1)

theorem isLast_cons_zero :
    IsLast (op :: ops) path 0 ↔ op.path = path ∧ superseded op ops = false := by
  rw [IsLast, superseded, List.any_eq_false]
  constructor
  · rintro ⟨hop, hlast⟩
    have hpath : op.path = path := by simpa using hop
    refine ⟨hpath, fun o ho h => ?_⟩
    obtain ⟨j, hj⟩ := List.mem_iff_getElem?.1 ho
    refine hlast (j + 1) (Nat.succ_pos j) ?_
    rw [List.getElem?_cons_succ, hj, Option.map_some, of_decide_eq_true h, hpath]
  · rintro ⟨rfl, hnone⟩
    refine ⟨rfl, fun j hj hp => ?_⟩
    obtain ⟨j, rfl⟩ := Nat.exists_eq_add_of_lt hj
    rw [Nat.zero_add, List.getElem?_cons_succ, Option.map_eq_some_iff] at hp
    obtain ⟨o, ho, hpath⟩ := hp
    exact hnone o (List.mem_of_getElem? ho) (decide_eq_true hpath)

theorem isLast_cons_succ
    : IsLast (op :: ops) path (i + 1) ↔ IsLast ops path i := by
  rw [IsLast, IsLast, List.getElem?_cons_succ]
  refine and_congr_right fun _ => ⟨fun h j hj => ?_, fun h j hj => ?_⟩
  · exact h (j + 1) (Nat.succ_lt_succ hj)
  · obtain ⟨j, rfl⟩ := Nat.exists_eq_add_of_lt (Nat.lt_of_le_of_lt (Nat.zero_le _) hj)
    rw [Nat.zero_add, List.getElem?_cons_succ]
    exact h j (by omega)

theorem mem_unsuperseded :
    i ∈ unsuperseded ops ↔ ∃ path, IsLast ops path i := by
  induction ops generalizing i with
  | nil => simp [unsuperseded, IsLast]
  | cons op ops ih =>
    cases i with
    | zero =>
      simp only [isLast_cons_zero, exists_eq_left', unsuperseded]
      cases hs : superseded op ops <;> simp
    | succ i =>
      simp only [isLast_cons_succ, ← ih, unsuperseded]
      cases hs : superseded op ops <;> simp

theorem unsuperseded_pairwise (ops : List (PatchOperation α)) :
    (unsuperseded ops).Pairwise (· < ·) := by
  induction ops with
  | nil => exact .nil
  | cons op ops ih =>
    have hmap : ((unsuperseded ops).map (· + 1)).Pairwise (· < ·) :=
      List.pairwise_map.2 (ih.imp Nat.succ_lt_succ)
    rw [unsuperseded]
    split
    · exact hmap
    · refine List.pairwise_cons.2 ⟨fun j hj => ?_, hmap⟩
      obtain ⟨k, -, rfl⟩ := List.mem_map.1 hj
      exact Nat.succ_pos k

theorem keptIndices_eq (ops : List (PatchOperation α)) : keptIndices ops = unsuperseded ops := by
  have hvalues : ((lastIndexByPath ops).map (·.2)).Nodup := by
    refine List.Nodup.map_on ?_ (List.Nodup.of_map _ (lastIndexByPath_keys ops))
    rintro ⟨p, i⟩ hp ⟨q, j⟩ hq rfl
    have he := (mem_lastIndexByPath.1 hp).1.symm.trans (mem_lastIndexByPath.1 hq).1
    rw [Option.some.inj he]
  have hsame : ∀ i, i ∈ (lastIndexByPath ops).map (·.2) ↔ i ∈ unsuperseded ops := by
    intro i
    rw [mem_unsuperseded, List.mem_map]
    constructor
    · rintro ⟨⟨p, _⟩, hm, rfl⟩
      exact ⟨p, mem_lastIndexByPath.1 hm⟩
    · rintro ⟨p, hm⟩
      exact ⟨(p, i), mem_lastIndexByPath.2 hm, rfl⟩
  have hperm : (keptIndices ops).Perm (unsuperseded ops) :=
    (List.mergeSort_perm _ _).trans ((List.perm_ext_iff_of_nodup hvalues
      ((unsuperseded_pairwise ops).imp Nat.ne_of_lt)).2 hsame)
  have hsorted : (keptIndices ops).Pairwise (· ≤ ·) := List.pairwise_mergeSort' _ _
  exact hperm.eq_of_pairwise (fun a b _ _ => Nat.le_antisymm) hsorted
    ((unsuperseded_pairwise ops).imp Nat.le_of_lt)

theorem dedupeOps_cons (op : PatchOperation α) (ops : List (PatchOperation α)) :
    dedupeOps (op :: ops) = if superseded op ops then dedupeOps ops else op :: dedupeOps ops := by
  have htail : ((unsuperseded ops).map (· + 1)).filterMap (fun i => (op :: ops)[i]?) =
      dedupeOps ops := by
    rw [List.filterMap_map, dedupeOps, keptIndices_eq]
    rfl
  rw [dedupeOps, keptIndices_eq, unsuperseded]
  split
  · exact htail
  · rw [List.filterMap_cons]
    exact congrArg (op :: ·) htail

@[simp]
theorem dedupeOps_nil : dedupeOps ([] : List (PatchOperation α)) = [] := by
  simp [dedupeOps]

/-- The client has the first entries of the document, some of them out of date, and misses the
others, which only operations left out of the batch have added. -/
structure View where
  shown : Nat
  missing : Nat
  stale : List Nat

namespace View

/-- An operation that is sent. It must not reach past the end of what the client has. -/
def keep : PatchOperation α → View → Option View
  | .add (.index i) _, ⟨shown, missing, stale⟩ =>
    if i ≤ shown then
      some ⟨shown + 1, missing, stale.map fun j => if i ≤ j then j + 1 else j⟩
    else none
  | .add .last _, ⟨shown, missing, stale⟩ =>
    if missing = 0 then some ⟨shown + 1, missing, stale⟩ else none
  | .replace (.index i) _, ⟨shown, missing, stale⟩ =>
    if i < shown then some ⟨shown, missing, stale.filter (· ≠ i)⟩
    else if i = shown then some ⟨shown + 1, missing - 1, stale⟩
    else none
  | .replace .last _, _ => none
  | .remove (.index i), ⟨shown, missing, stale⟩ =>
    if i < shown then
      some ⟨shown - 1, missing,
        (stale.filter (· ≠ i)).map fun j => if i < j then j - 1 else j⟩
    else some ⟨shown, missing - 1, stale⟩
  | .remove .last, _ => none

/-- One that is left out. It must not add to or remove from what the client has. -/
def leave : PatchOperation α → View → Option View
  | .add (.index i) _, ⟨shown, missing, stale⟩ =>
    if i < shown then none else some ⟨shown, missing + 1, stale⟩
  | .add .last _, ⟨shown, missing, stale⟩ => some ⟨shown, missing + 1, stale⟩
  | .replace (.index i) _, ⟨shown, missing, stale⟩ =>
    some ⟨shown, missing, if i < shown then i :: stale else stale⟩
  | .replace .last _, _ => none
  | .remove (.index i), ⟨shown, missing, stale⟩ =>
    if i < shown then none else some ⟨shown, missing - 1, stale⟩
  | .remove .last, _ => none

def batch : List (PatchOperation α) → View → Option View
  | [], view => some view
  | op :: ops, view => (if superseded op ops then leave op view else keep op view).bind (batch ops)

end View

def Settles (length : Nat) (ops : List (PatchOperation α)) : Prop :=
  (View.batch ops ⟨length, 0, []⟩).any fun view => view.missing = 0 ∧ view.stale = []

instance (length : Nat) (ops : List (PatchOperation α)) : Decidable (Settles length ops) :=
  inferInstanceAs (Decidable (_ = true))

structure Shows (view : View) (entries client : List α) : Prop where
  client_length : client.length = view.shown
  length : entries.length = view.shown + view.missing
  agree : ∀ i < view.shown, i ∉ view.stale → entries[i]? = client[i]?

theorem Shows.keep {applyPatch : ApplyPatch α} (happly : applyPatch.Documented)
    (h : Shows view entries client) (hop : op.apply entries = some entries')
    (hv : View.keep op view = some view') :
    Shows view' entries' (applyUpsert applyPatch client op) := by
  obtain ⟨shown, missing, stale⟩ := view
  obtain ⟨hclient, hlength, hagree⟩ := h
  simp only at hclient hlength hagree
  cases op with
  | add path value =>
    cases path with
    | index i =>
      simp only [View.keep, PatchOperation.apply, Option.ite_none_right_eq_some,
        Option.some.injEq] at hv hop
      obtain ⟨hi, rfl⟩ := hv
      obtain ⟨hi', rfl⟩ := hop
      have hic : i ≤ client.length := hclient ▸ hi
      rw [applyUpsert, happly.add i value client hic]
      dsimp only
      refine ⟨?_, ?_, fun j hj hs => ?_⟩
      · rw [List.length_insertIdx, if_pos hic, hclient]
      · rw [List.length_insertIdx, if_pos hi', hlength]
        simp only
        omega
      · rw [List.getElem?_insertIdx, List.getElem?_insertIdx]
        grind
    | last =>
      simp only [View.keep, PatchOperation.apply, Option.ite_none_right_eq_some,
        Option.some.injEq] at hv hop
      obtain ⟨rfl, rfl⟩ := hv
      subst hop
      rw [applyUpsert, happly.append]
      dsimp only
      refine ⟨?_, ?_, fun j hj hs => ?_⟩
      · simp [hclient]
      · simp [hlength]
      · simp only at hj hs
        rw [List.getElem?_append, List.getElem?_append]
        grind
  | replace path value =>
    cases path with
    | index i =>
      simp only [View.keep, PatchOperation.apply, Option.ite_none_right_eq_some,
        Option.some.injEq] at hv hop
      obtain ⟨hi', rfl⟩ := hop
      split at hv
      · rename_i hi
        cases hv
        have hic : i < client.length := hclient ▸ hi
        simp only [applyUpsert, happly.replace, hic, if_true]
        refine ⟨by simp [hclient], by simp [hlength], fun j hj hs => ?_⟩
        rw [List.getElem?_set, List.getElem?_set]
        grind
      · split at hv
        · rename_i hi
          cases hv
          subst hi
          have hic : ¬ i < client.length := by omega
          have hic' : i ≤ client.length := by omega
          simp only [applyUpsert, happly.replace, hic, if_false, happly.add i value client hic']
          refine ⟨?_, ?_, fun j hj hs => ?_⟩
          · rw [List.length_insertIdx, if_pos hic', hclient]
          · rw [List.length_set, hlength]
            simp only
            omega
          · rw [List.getElem?_set, List.getElem?_insertIdx]
            grind
        · cases hv
    | last => cases hv
  | remove path =>
    cases path with
    | index i =>
      simp only [View.keep, PatchOperation.apply, Option.ite_none_right_eq_some,
        Option.some.injEq] at hv hop
      obtain ⟨hi', rfl⟩ := hop
      split at hv
      · rename_i hi
        cases hv
        have hic : i < client.length := hclient ▸ hi
        simp only [applyUpsert, happly.remove, hic, if_true]
        refine ⟨?_, ?_, fun j hj hs => ?_⟩
        · rw [List.length_eraseIdx, if_pos hic, hclient]
        · rw [List.length_eraseIdx, if_pos hi', hlength]
          simp only
          omega
        · have hbefore : j < i → j ∉ stale := fun hji hm =>
            hs (List.mem_map.2 ⟨j, List.mem_filter.2 ⟨hm, by simpa using hji.ne⟩,
              if_neg hji.le.not_gt⟩)
          have hafter : i ≤ j → j + 1 ∉ stale := fun hij hm =>
            hs (List.mem_map.2 ⟨j + 1, List.mem_filter.2
              ⟨hm, by simpa using (Nat.lt_succ_of_le hij).ne'⟩, if_pos (Nat.lt_succ_of_le hij)⟩)
          simp only at hj
          rw [List.getElem?_eraseIdx, List.getElem?_eraseIdx]
          split
          · rename_i hji
            exact hagree j (by omega) (hbefore hji)
          · rename_i hji
            exact hagree (j + 1) (by omega) (hafter (Nat.le_of_not_lt hji))
      · rename_i hi
        cases hv
        have hic : ¬ i < client.length := hclient ▸ hi
        simp only [applyUpsert, happly.remove, hic, if_false]
        refine ⟨hclient, ?_, fun j hj hs => ?_⟩
        · rw [List.length_eraseIdx, if_pos hi', hlength]
          simp only
          omega
        · rw [List.getElem?_eraseIdx_of_lt (Nat.lt_of_lt_of_le hj (Nat.le_of_not_lt hi))]
          exact hagree j hj hs
    | last => cases hv

theorem Shows.leave (h : Shows view entries client) (hop : op.apply entries = some entries')
    (hv : View.leave op view = some view') : Shows view' entries' client := by
  obtain ⟨shown, missing, stale⟩ := view
  obtain ⟨hclient, hlength, hagree⟩ := h
  simp only at hclient hlength hagree
  cases op with
  | add path value =>
    cases path with
    | index i =>
      simp only [View.leave, PatchOperation.apply, Option.ite_none_right_eq_some,
        Option.ite_none_left_eq_some, Option.some.injEq] at hv hop
      obtain ⟨hi, rfl⟩ := hv
      obtain ⟨hi', rfl⟩ := hop
      refine ⟨hclient, ?_, fun j hj hs => ?_⟩
      · rw [List.length_insertIdx, if_pos hi', hlength]
        simp only
        omega
      · rw [List.getElem?_insertIdx_of_lt (Nat.lt_of_lt_of_le hj (Nat.le_of_not_lt hi))]
        exact hagree j hj hs
    | last =>
      cases hv
      cases hop
      refine ⟨hclient, ?_, fun j hj hs => ?_⟩
      · rw [List.length_append, List.length_singleton, hlength]
        simp only
        omega
      · simp only at hj
        rw [List.getElem?_append_left (by omega)]
        exact hagree j hj hs
  | replace path value =>
    cases path with
    | index i =>
      simp only [View.leave, PatchOperation.apply, Option.ite_none_right_eq_some,
        Option.some.injEq] at hv hop
      obtain ⟨hi', rfl⟩ := hop
      subst hv
      refine ⟨hclient, by rw [List.length_set, hlength], fun j hj hs => ?_⟩
      have hne : i ≠ j := by
        rintro rfl
        simp only at hj hs
        rw [if_pos hj] at hs
        exact hs List.mem_cons_self
      rw [List.getElem?_set_ne hne]
      refine hagree j hj fun hm => hs ?_
      simp only
      split
      · exact List.mem_cons_of_mem _ hm
      · exact hm
    | last => cases hv
  | remove path =>
    cases path with
    | index i =>
      simp only [View.leave, PatchOperation.apply, Option.ite_none_right_eq_some,
        Option.ite_none_left_eq_some, Option.some.injEq] at hv hop
      obtain ⟨hi, rfl⟩ := hv
      obtain ⟨hi', rfl⟩ := hop
      refine ⟨hclient, ?_, fun j hj hs => ?_⟩
      · rw [List.length_eraseIdx, if_pos hi', hlength]
        simp only
        omega
      · rw [List.getElem?_eraseIdx_of_lt (Nat.lt_of_lt_of_le hj (Nat.le_of_not_lt hi))]
        exact hagree j hj hs
    | last => cases hv

theorem Shows.batch {applyPatch : ApplyPatch α} (happly : applyPatch.Documented)
    (h : Shows view entries client) (hops : applyOps ops entries = some entries')
    (hv : View.batch ops view = some view') :
    Shows view' entries' (applyUpsertPatch applyPatch client (dedupeOps ops)) := by
  induction ops generalizing view entries client with
  | nil =>
    cases hops
    cases hv
    rw [dedupeOps_nil]
    exact h
  | cons op ops ih =>
    rw [applyOps, List.foldlM_cons, Option.bind_eq_bind, Option.bind_eq_some_iff] at hops
    obtain ⟨next, hop, hops⟩ := hops
    rw [View.batch, Option.bind_eq_some_iff] at hv
    obtain ⟨viewNext, hstep, hv⟩ := hv
    rw [dedupeOps_cons]
    by_cases hs : superseded op ops = true
    · rw [if_pos hs] at hstep ⊢
      exact ih (h.leave hop hstep) hops hv
    · rw [if_neg hs] at hstep ⊢
      exact ih (h.keep happly hop hstep) hops hv

/-- A batch that settles gives the client the entries that its operations give one by one. -/
theorem flush_eq (applyPatch : ApplyPatch α) (happly : applyPatch.Documented)
    (entries entries' : List α) (pendingOps : List (PatchOperation α))
    (hops : applyOps pendingOps entries = some entries') (hs : Settles entries.length pendingOps) :
    flush applyPatch entries pendingOps = entries' := by
  have hstart : Shows ⟨entries.length, 0, []⟩ entries entries := ⟨rfl, rfl, fun _ _ _ => rfl⟩
  obtain ⟨⟨shown, missing, stale⟩, hv, hend⟩ := (Option.any_eq_true _ _).1 hs
  obtain ⟨rfl, rfl⟩ := of_decide_eq_true hend
  obtain ⟨hclient, hlength, hagree⟩ := hstart.batch happly hops hv
  refine List.ext_getElem? fun i => ?_
  by_cases hi : i < shown
  · exact (hagree i hi List.not_mem_nil).symm
  · have hclient' : (flush applyPatch entries pendingOps).length = shown := hclient
    have hlength' : entries'.length = shown := hlength
    rw [List.getElem?_eq_none (by omega), List.getElem?_eq_none (by omega)]

/-- An add past the end appends. -/
def sampleApplyPatch (op : PatchOperation String) (target : List String) :
    Option PatchError × List String :=
  match op with
  | .add (.index i) value =>
    (none, if i ≤ target.length then target.insertIdx i value else target ++ [value])
  | .add .last value => (none, target ++ [value])
  | .replace (.index i) value =>
    if i < target.length then (none, target.set i value) else (some .missingError, target)
  | .remove (.index i) =>
    if i < target.length then (none, target.eraseIdx i) else (some .missingError, target)
  | .replace .last _ | .remove .last => (some .missingError, target)

theorem sampleApplyPatch_documented : ApplyPatch.Documented sampleApplyPatch where
  add i value target h := by rw [sampleApplyPatch, if_pos h]
  append _ _ := rfl
  replace _ _ _ := rfl
  remove _ _ := rfl

/-- An entry that is added and then replaced, before one after it is. -/
theorem flush_eq_sample : flush sampleApplyPatch ["a"]
    [.add (.index 1) "b", .replace (.index 0) "a'", .replace (.index 1) "b'",
      .add (.index 2) "c"] = ["a'", "b'", "c"] :=
  flush_eq _ sampleApplyPatch_documented ["a"] ["a'", "b'", "c"] _ (by decide) (by decide)

/-- Two entries are added at the front, and the first add of them is left out. -/
theorem flush_ne : ApplyPatch.Documented sampleApplyPatch ∧
    applyOps [.add (.index 0) "a", .add (.index 0) "b"] [] = some ["b", "a"] ∧
    flush sampleApplyPatch [] [.add (.index 0) "a", .add (.index 0) "b"] ≠ ["b", "a"] := by
  refine ⟨sampleApplyPatch_documented, by decide, ?_⟩
  simp [flush, dedupeOps_cons, superseded, PatchOperation.path, applyUpsertPatch, applyUpsert,
    sampleApplyPatch]

end Cdesktop.StreamEntries
