import Mathlib.Data.List.Induction
import Mathlib.Data.List.Infix

namespace Cdesktop.Replay
set_option autoImplicit true

/-- Where an entry patch points: below `/entries`, an index or the dash for past the last entry. -/
inductive EntryPath where
  | index (i : Nat)
  | last
deriving DecidableEq

inductive PatchOperation (α : Type) where
  | add (path : EntryPath) (value : α)
  | replace (path : EntryPath) (value : α)
  | remove (path : EntryPath)

abbrev Patch (α : Type) := List (PatchOperation α)

def PatchOperation.path : PatchOperation α → EntryPath
  | .add path _ => path
  | .replace path _ => path
  | .remove path => path

def PatchOperation.isAddOrReplace : PatchOperation α → Bool
  | .add .. => true
  | .replace .. => true
  | .remove _ => false

/-- The path of a patch, assuming it has a single operation. -/
def patchEntryPath (patch : Patch α) : Option EntryPath := patch.head?.map PatchOperation.path

def isAddOrReplace (patch : Patch α) : Bool := patch.all PatchOperation.isAddOrReplace

/-- The "replace" operation for a path that was sent, "add" for a new one. -/
def fixOperation (sent : List EntryPath) : PatchOperation α → PatchOperation α
  | .add path value => if path ∈ sent then .replace path value else .add path value
  | .replace path value => if path ∈ sent then .replace path value else .add path value
  | .remove path => .remove path

def fixPatchOps (sent : List EntryPath) : Patch α → Patch α × List EntryPath
  | [] => ([], sent)
  | op :: ops =>
    let (fixed, sent') := fixPatchOps (if op.path ∈ sent then sent else op.path :: sent) ops
    (fixOperation sent op :: fixed, sent')

/-- The messages of a store; what is not a patch or the sentinel says nothing here. -/
inductive LogMsg (α : Type) where
  | jsonPatch (patch : Patch α)
  | ready
  | finished
  | other

/-- What the replay has emitted, the patch it holds back and the paths it has sent. -/
structure Dedupe (ε α : Type) where
  emitted : List (Except ε (Patch α))
  buffered : Option (Patch α)
  sentPaths : List EntryPath

namespace Dedupe

def init : Dedupe ε α := ⟨[], none, []⟩

/-- One item: a patch at the path of the one held back takes its place if both write. -/
def next (s : Dedupe ε α) : Except ε (Patch α) → Dedupe ε α
  | .ok patch =>
    match s.buffered with
    | none => { s with buffered := some patch }
    | some prev =>
      if patchEntryPath patch = patchEntryPath prev ∧ isAddOrReplace patch ∧ isAddOrReplace prev then
        { s with buffered := some patch }
      else
        let (prev, sentPaths) := fixPatchOps s.sentPaths prev
        ⟨s.emitted ++ [.ok prev], some patch, sentPaths⟩
  | .error error => { s with emitted := s.emitted ++ [.error error] }

def finish (s : Dedupe ε α) : List (Except ε (Patch α)) :=
  match s.buffered with
  | some prev => s.emitted ++ [.ok (fixPatchOps s.sentPaths prev).1]
  | none => s.emitted

end Dedupe

def notReady : Except ε (LogMsg α) → Bool
  | .ok .ready => false
  | _ => true

/-- A patch or an error; other messages are dropped. -/
def item : Except ε (LogMsg α) → Option (Except ε (Patch α))
  | .ok (.jsonPatch patch) => some (.ok patch)
  | .error error => some (.error error)
  | _ => none

def items (messages : List (Except ε (LogMsg α))) : List (Except ε (Patch α)) :=
  (messages.takeWhile notReady).filterMap item

def normalizedReplayStream (messages : List (Except ε (LogMsg α))) : List (Except ε (LogMsg α)) :=
  (((items messages).foldl Dedupe.next Dedupe.init).finish).map (Except.map .jsonPatch) ++
    [.ok .finished]

/-- What an operation does to the entries of the document; `none` where it cannot be applied. -/
def PatchOperation.apply : PatchOperation α → List α → Option (List α)
  | .add (.index i) value, entries =>
    if i ≤ entries.length then some (entries.insertIdx i value) else none
  | .add .last value, entries => some (entries ++ [value])
  | .replace (.index i) value, entries =>
    if i < entries.length then some (entries.set i value) else none
  | .replace .last _, _ => none
  | .remove (.index i), entries => if i < entries.length then some (entries.eraseIdx i) else none
  | .remove .last, _ => none

def applyOps (ops : List (PatchOperation α)) (entries : List α) : Option (List α) :=
  ops.foldlM (fun entries op => op.apply entries) entries

def patchOf : Except ε (LogMsg α) → Option (Patch α)
  | .ok (.jsonPatch patch) => some patch
  | _ => none

def operations (messages : List (Except ε (LogMsg α))) : List (PatchOperation α) :=
  (messages.filterMap patchOf).flatten

def history (messages : List (Except ε (LogMsg α))) : List (Except ε (LogMsg α)) :=
  messages.takeWhile notReady

def Preserves (messages : List (Except ε (LogMsg α))) : Prop :=
  applyOps (operations (normalizedReplayStream messages)) [] =
    applyOps (operations (history messages)) []

/-- An add of a path that none of the operations before it names, or a replace of one that some of
them does. -/
def Fits (before : List (PatchOperation α)) : PatchOperation α → Prop
  | .add path _ => ∀ earlier ∈ before, earlier.path ≠ path
  | .replace path _ => ∃ earlier ∈ before, earlier.path = path
  | .remove _ => True

/-- A path is added once, before everything else that names it, and from then on only replaced. -/
def AddedOnce (ops : List (PatchOperation α)) : Prop :=
  ∀ before op, before ++ [op] <+: ops → Fits before op

theorem applyOps_append (ops later : List (PatchOperation α)) (entries : List α) :
    applyOps (ops ++ later) entries = (applyOps ops entries).bind (applyOps later) :=
  List.foldlM_append

theorem applyOps_single (op : PatchOperation α) (entries : List α) :
    applyOps [op] entries = op.apply entries := by
  simp only [applyOps, List.foldlM_cons, List.foldlM_nil, bind_pure]

theorem applyOps_concat (ops : List (PatchOperation α)) (op : PatchOperation α) (entries : List α) :
    applyOps (ops ++ [op]) entries = (applyOps ops entries).bind op.apply := by
  rw [applyOps_append]
  congr
  funext entries
  exact applyOps_single op entries

def PatchOperation.gain : PatchOperation α → Int
  | .add .. => 1
  | .replace .. => 0
  | .remove _ => -1

variable {op prev : PatchOperation α} {entries : List α} {sent : List EntryPath}
  {ops : List (PatchOperation α)} {s : Dedupe ε α}

theorem apply_length {entries' : List α}
    (h : op.apply entries = some entries') : (entries'.length : Int) = entries.length + op.gain := by
  cases op with
  | add path value =>
    cases path with
    | index i =>
      simp only [PatchOperation.apply, Option.ite_none_right_eq_some, Option.some.injEq] at h
      obtain ⟨hi, rfl⟩ := h
      rw [List.length_insertIdx, if_pos hi]
      rfl
    | last =>
      cases h
      simp [PatchOperation.gain]
  | replace path value =>
    cases path with
    | index i =>
      simp only [PatchOperation.apply, Option.ite_none_right_eq_some, Option.some.injEq] at h
      obtain ⟨hi, rfl⟩ := h
      simp [PatchOperation.gain]
    | last => cases h
  | remove path =>
    cases path with
    | index i =>
      simp only [PatchOperation.apply, Option.ite_none_right_eq_some, Option.some.injEq] at h
      obtain ⟨hi, rfl⟩ := h
      rw [List.length_eraseIdx, if_pos hi, PatchOperation.gain]
      omega
    | last => cases h

theorem set_insertIdx (entries : List α) (i : Nat) (old value : α) (hi : i ≤ entries.length) :
    (entries.insertIdx i old).set i value = entries.insertIdx i value := by
  induction entries generalizing i with
  | nil =>
    obtain rfl := Nat.le_zero.1 hi
    rfl
  | cons entry entries ih =>
    cases i with
    | zero => rfl
    | succ i =>
      simp only [List.insertIdx_succ_cons, List.set_cons_succ, List.cons.injEq, true_and]
      exact ih i (Nat.le_of_succ_le_succ hi)

theorem fixOperation_overwrites {path : EntryPath}
    {value : α} {entries' entries'' : List α} (hwrites : prev.isAddOrReplace = true)
    (hpath : prev.path = path) (hprev : (fixOperation sent prev).apply entries = some entries')
    (hop : (PatchOperation.replace path value).apply entries' = some entries'') :
    (fixOperation sent (.replace path value)).apply entries = some entries'' := by
  cases path with
  | last => cases hop
  | index i =>
    simp only [PatchOperation.apply, Option.ite_none_right_eq_some, Option.some.injEq] at hop
    obtain ⟨hi, rfl⟩ := hop
    by_cases hsent : EntryPath.index i ∈ sent
    · have hfixed : ∃ old, fixOperation sent prev = .replace (.index i) old := by
        cases prev with
        | add p old =>
          cases hpath
          exact ⟨old, if_pos hsent⟩
        | replace p old =>
          cases hpath
          exact ⟨old, if_pos hsent⟩
        | remove p => cases hwrites
      obtain ⟨old, hold⟩ := hfixed
      rw [hold] at hprev
      simp only [PatchOperation.apply, Option.ite_none_right_eq_some, Option.some.injEq] at hprev
      obtain ⟨hi', rfl⟩ := hprev
      simp only [fixOperation, hsent, ↓reduceIte, PatchOperation.apply, hi', List.set_set]
    · have hfixed : ∃ old, fixOperation sent prev = .add (.index i) old := by
        cases prev with
        | add p old =>
          cases hpath
          exact ⟨old, if_neg hsent⟩
        | replace p old =>
          cases hpath
          exact ⟨old, if_neg hsent⟩
        | remove p => cases hwrites
      obtain ⟨old, hold⟩ := hfixed
      rw [hold] at hprev
      simp only [PatchOperation.apply, Option.ite_none_right_eq_some, Option.some.injEq] at hprev
      obtain ⟨hi', rfl⟩ := hprev
      simp only [fixOperation, hsent, ↓reduceIte, PatchOperation.apply, hi', Option.some.injEq]
      exact (set_insertIdx entries i old value hi').symm

theorem fixOperation_fits (hsent : ∀ path, (∃ earlier ∈ ops, earlier.path = path) ↔ path ∈ sent)
    (hop : Fits ops op) : fixOperation sent op = op := by
  cases op with
  | add path value =>
    have hnew : path ∉ sent := by
      intro hmem
      obtain ⟨earlier, hearlier, hpath⟩ := (hsent path).2 hmem
      exact hop earlier hearlier hpath
    exact if_neg hnew
  | replace path value => exact if_pos ((hsent path).1 hop)
  | remove path => rfl

/-- One that does not fit is sent as the other write, and changes the length by one more or less. -/
theorem fixOperation_misfits (hsent : ∀ path, (∃ earlier ∈ ops, earlier.path = path) ↔ path ∈ sent)
    (hop : ¬ Fits ops op) : (fixOperation sent op).gain ≠ op.gain := by
  cases op with
  | add path value =>
    have hused : path ∈ sent := by
      simp only [Fits, not_forall, not_not] at hop
      obtain ⟨earlier, hearlier, hpath⟩ := hop
      exact (hsent path).1 ⟨earlier, hearlier, hpath⟩
    have hfixed : fixOperation sent (.add path value) = .replace path value := if_pos hused
    rw [hfixed]
    exact fun h => nomatch h
  | replace path value =>
    have hnew : path ∉ sent := fun hmem => hop ((hsent path).2 hmem)
    have hfixed : fixOperation sent (.replace path value) = .add path value := if_neg hnew
    rw [hfixed]
    exact fun h => nomatch h
  | remove path => exact absurd trivial hop

def okOps (items : List (Except ε (Patch α))) : List (PatchOperation α) :=
  (items.filterMap Except.toOption).flatten

@[simp] theorem okOps_concat_ok (items : List (Except ε (Patch α))) (patch : Patch α) :
    okOps (items ++ [.ok patch]) = okOps items ++ patch := by
  simp [okOps, Except.toOption]

@[simp] theorem okOps_concat_error (items : List (Except ε (Patch α))) (error : ε) :
    okOps (items ++ [.error error]) = okOps items := by
  simp [okOps, Except.toOption]

def sentWith (sent : List EntryPath) (prev : PatchOperation α) : List EntryPath :=
  if prev.path ∈ sent then sent else prev.path :: sent

theorem mem_sentWith {path : EntryPath} :
    path ∈ sentWith sent prev ↔ path = prev.path ∨ path ∈ sent := by
  rw [sentWith]
  split
  · rename_i hmem
    constructor
    · exact Or.inr
    · rintro (rfl | h)
      · exact hmem
      · exact h
  · exact List.mem_cons

theorem fixPatchOps_single (sent : List EntryPath) (prev : PatchOperation α) :
    fixPatchOps sent [prev] = ([fixOperation sent prev], sentWith sent prev) := rfl

inductive Tracks : Dedupe ε α → List (PatchOperation α) → Prop where
  | start {emitted : List (Except ε (Patch α))} (hemitted : okOps emitted = []) :
      Tracks ⟨emitted, none, []⟩ []
  | held {emitted : List (Except ε (Patch α))} {prev : PatchOperation α} {sent : List EntryPath}
      {ops : List (PatchOperation α)} {entries entries' : List α}
      (hemitted : applyOps (okOps emitted) [] = some entries)
      (hprev : (fixOperation sent prev).apply entries = some entries')
      (hops : applyOps ops [] = some entries')
      (hpaths : ∀ path, (∃ earlier ∈ ops, earlier.path = path) ↔ path ∈ sentWith sent prev) :
      Tracks ⟨emitted, some [prev], sent⟩ ops

theorem Tracks.error (h : Tracks s ops) (error : ε) :
    Tracks (s.next (.error error)) ops := by
  cases h with
  | start hemitted =>
    apply Tracks.start
    rw [okOps_concat_error, hemitted]
  | held hemitted hprev hops hpaths =>
    apply Tracks.held _ hprev hops hpaths
    rw [okOps_concat_error, hemitted]

theorem Tracks.finish (h : Tracks s ops) :
    applyOps (okOps s.finish) [] = applyOps ops [] := by
  cases h with
  | start hemitted =>
    rw [Dedupe.finish, hemitted]
  | held hemitted hprev hops hpaths =>
    rw [Dedupe.finish, okOps_concat_ok, fixPatchOps_single, applyOps_concat, hemitted, hops]
    exact hprev

def Merges (op prev : PatchOperation α) : Prop :=
  op.path = prev.path ∧ op.isAddOrReplace = true ∧ prev.isAddOrReplace = true

theorem next_merges {emitted : List (Except ε (Patch α))} (h : Merges op prev) :
    (Dedupe.mk emitted (some [prev]) sent).next (.ok [op]) = ⟨emitted, some [op], sent⟩ := by
  obtain ⟨hpath, hop, hprev⟩ := h
  simp [Dedupe.next, patchEntryPath, isAddOrReplace, hpath, hop, hprev]

theorem next_apart {emitted : List (Except ε (Patch α))} (h : ¬ Merges op prev) :
    (Dedupe.mk emitted (some [prev]) sent).next (.ok [op]) =
      ⟨emitted ++ [.ok [fixOperation sent prev]], some [op], sentWith sent prev⟩ := by
  have hno : ¬ (patchEntryPath [op] = patchEntryPath [prev] ∧ isAddOrReplace [op] = true ∧
      isAddOrReplace [prev] = true) := by
    simpa [patchEntryPath, isAddOrReplace, Merges] using h
  simp only [Dedupe.next, if_neg hno, fixPatchOps_single]

theorem paths_concat
    (hsent : ∀ path, (∃ earlier ∈ ops, earlier.path = path) ↔ path ∈ sent) (path : EntryPath) :
    (∃ earlier ∈ ops ++ [op], earlier.path = path) ↔ path ∈ sentWith sent op := by
  rw [mem_sentWith, ← hsent]
  constructor
  · rintro ⟨earlier, hearlier, rfl⟩
    rcases List.mem_append.1 hearlier with hold | hnew
    · exact .inr ⟨earlier, hold, rfl⟩
    · rw [List.mem_singleton.1 hnew]
      exact .inl rfl
  · rintro (rfl | ⟨earlier, hearlier, rfl⟩)
    · exact ⟨op, List.mem_append_right _ (List.mem_singleton.2 rfl), rfl⟩
    · exact ⟨earlier, List.mem_append_left _ hearlier, rfl⟩

theorem Tracks.next (h : Tracks s ops) (hop : Fits ops op)
    (happlies : applyOps (ops ++ [op]) [] = some entries) :
    Tracks (s.next (.ok [op])) (ops ++ [op]) := by
  have hlast := happlies
  rw [applyOps_concat] at hlast
  cases h with
  | @start emitted hemitted =>
    have hsent : ∀ path, (∃ earlier ∈ ([] : List (PatchOperation α)), earlier.path = path) ↔
        path ∈ ([] : List EntryPath) := by simp
    have hnone : applyOps (okOps emitted) [] = some [] := by
      rw [hemitted]
      rfl
    apply Tracks.held hnone _ happlies (paths_concat hsent)
    rw [fixOperation_fits hsent hop]
    exact hlast
  | @held emitted prev sent _ held now hemitted hprev hops hpaths =>
    rw [hops, Option.bind_some] at hlast
    by_cases hmerges : Merges op prev
    · rw [next_merges hmerges]
      have hused : ∃ earlier ∈ ops, earlier.path = op.path := by
        rw [hpaths, mem_sentWith]
        exact .inl hmerges.1
      have hreplace : ∃ path value, op = .replace path value := by
        cases op with
        | add path value =>
          obtain ⟨earlier, hearlier, hpath⟩ := hused
          exact absurd hpath (hop earlier hearlier)
        | replace path value => exact ⟨path, value, rfl⟩
        | remove path => cases hmerges.2.1
      obtain ⟨path, value, rfl⟩ := hreplace
      apply Tracks.held hemitted _ happlies
      · intro path'
        rw [paths_concat hpaths, mem_sentWith, mem_sentWith, mem_sentWith, hmerges.1]
        tauto
      · exact fixOperation_overwrites hmerges.2.2 hmerges.1.symm hprev hlast
    · rw [next_apart hmerges]
      apply Tracks.held _ _ happlies (paths_concat hpaths)
      · exact now
      · rw [okOps_concat_ok, applyOps_concat, hemitted]
        exact hprev
      · rw [fixOperation_fits hpaths hop]
        exact hlast

theorem fixOperation_gain (h : op.isAddOrReplace = true) :
    (fixOperation sent op).gain = if op.path ∈ sent then 0 else 1 := by
  cases op with
  | add path value =>
    by_cases hsent : path ∈ sent <;>
      simp only [fixOperation, PatchOperation.path, hsent, ↓reduceIte, PatchOperation.gain]
  | replace path value =>
    by_cases hsent : path ∈ sent <;>
      simp only [fixOperation, PatchOperation.path, hsent, ↓reduceIte, PatchOperation.gain]
  | remove path => cases h

theorem finish_held (emitted : List (Except ε (Patch α))) (op : PatchOperation α)
    (sent : List EntryPath) :
    (Dedupe.mk emitted (some [op]) sent).finish = emitted ++ [.ok [fixOperation sent op]] := rfl

theorem Tracks.broken (h : Tracks s ops) (hop : ¬ Fits ops op)
    (happlies : applyOps (ops ++ [op]) [] = some entries) :
    applyOps (okOps (s.next (.ok [op])).finish) [] ≠ applyOps (ops ++ [op]) [] := by
  rw [happlies]
  rw [applyOps_concat] at happlies
  intro hsame
  cases h with
  | start hemitted =>
    cases op with
    | add path value => exact hop (fun _ hmem => nomatch hmem)
    | replace path value => cases path <;> cases happlies
    | remove path => exact hop trivial
  | @held emitted prev sent _ held now hemitted hprev hops hpaths =>
    rw [hops, Option.bind_some] at happlies
    have hgrows := apply_length happlies
    by_cases hmerges : Merges op prev
    · rw [next_merges hmerges, finish_held, okOps_concat_ok, applyOps_concat, hemitted,
        Option.bind_some] at hsame
      have hsent := apply_length hsame
      have hheld := apply_length hprev
      rw [fixOperation_gain hmerges.2.1, hmerges.1] at hsent
      rw [fixOperation_gain hmerges.2.2] at hheld
      have hnone : op.gain = 0 := by omega
      cases op with
      | add path value => cases hnone
      | replace path value =>
        apply hop
        rw [Fits, hpaths, mem_sentWith]
        exact .inl hmerges.1
      | remove path => cases hmerges.2.1
    · rw [next_apart hmerges, finish_held, okOps_concat_ok, applyOps_concat, okOps_concat_ok,
        applyOps_concat, hemitted, Option.bind_some, hprev, Option.bind_some] at hsame
      have hsent := apply_length hsame
      apply fixOperation_misfits hpaths hop
      omega

def replayed (messages : List (Except ε (LogMsg α))) : Dedupe ε α :=
  (items messages).foldl Dedupe.next Dedupe.init

theorem operations_stream (messages : List (Except ε (LogMsg α))) :
    operations (normalizedReplayStream messages) = okOps (replayed messages).finish := by
  have hpatch : ∀ items : List (Except ε (Patch α)),
      (items.map (Except.map LogMsg.jsonPatch)).filterMap patchOf = items.filterMap Except.toOption := by
    intro items
    rw [List.filterMap_map]
    apply List.filterMap_congr
    intro x _
    cases x <;> rfl
  rw [operations, normalizedReplayStream, List.filterMap_append, hpatch, List.flatten_append]
  exact List.append_nil _

theorem operations_history (messages : List (Except ε (LogMsg α))) :
    operations (history messages) = okOps (items messages) := by
  rw [operations, okOps, items, history, List.filterMap_filterMap]
  congr 1
  apply List.filterMap_congr
  intro m _
  cases m with
  | error e => rfl
  | ok msg => cases msg <;> rfl

theorem items_concat (messages : List (Except ε (LogMsg α))) (m : Except ε (LogMsg α)) :
    items (messages ++ [m]) = items messages ∨
      ∃ x, item m = some x ∧ items (messages ++ [m]) = items messages ++ [x] := by
  simp only [items, List.takeWhile_append]
  split
  · rename_i hall
    have hle := List.takeWhile_prefix (l := messages) notReady
    have hsame : messages.takeWhile notReady = messages := hle.eq_of_length hall
    rw [hsame, List.filterMap_append]
    cases hready : notReady m with
    | false =>
      rw [List.takeWhile_cons_of_neg (Bool.eq_false_iff.1 hready)]
      exact .inl (List.append_nil _)
    | true =>
      rw [List.takeWhile_cons_of_pos hready]
      cases hitem : item m with
      | none =>
        rw [List.takeWhile_nil, List.filterMap_cons_none hitem]
        exact .inl (List.append_nil _)
      | some x =>
        rw [List.takeWhile_nil, List.filterMap_cons_some hitem]
        exact .inr ⟨x, rfl, rfl⟩
  · exact .inl rfl

/-- Every patch before the sentinel has a single operation. -/
def SingleOperation (messages : List (Except ε (LogMsg α))) : Prop :=
  ∀ patch, .ok patch ∈ items messages → ∃ op, patch = [op]

/-- Patches of one operation each, with nothing between them. -/
def recorded (ops : List (PatchOperation Nat)) : List (Except Unit (LogMsg Nat)) :=
  ops.map fun op => .ok (.jsonPatch [op])

theorem items_mono {before messages : List (Except ε (LogMsg α))} (h : before <+: messages) :
    items before <+: items messages := by
  obtain ⟨after, rfl⟩ := h
  induction after using List.reverseRecOn with
  | nil =>
    rw [List.append_nil]
  | append_singleton after m ih =>
    rw [← List.append_assoc]
    rcases items_concat (before ++ after) m with hsame | ⟨x, _, hmore⟩
    · rw [hsame]
      exact ih
    · rw [hmore]
      exact ih.trans (List.prefix_append _ _)

theorem okOps_mono {before later : List (Except ε (Patch α))} (h : before <+: later) :
    okOps before <+: okOps later := by
  obtain ⟨after, rfl⟩ := h
  rw [okOps, okOps, List.filterMap_append, List.flatten_append]
  exact List.prefix_append _ _

theorem recorded_single (ops : List (PatchOperation Nat)) : SingleOperation (recorded ops) := by
  intro patch hpatch
  rw [items, List.mem_filterMap] at hpatch
  obtain ⟨m, hm, hitem⟩ := hpatch
  obtain ⟨op, -, rfl⟩ := List.mem_map.1 ((List.takeWhile_sublist _).subset hm)
  cases hitem
  exact ⟨op, rfl⟩

theorem applies_before {later : List (PatchOperation α)} (h : ops <+: later)
    (happlies : applyOps later [] = some entries) : ∃ entries', applyOps ops [] = some entries' := by
  obtain ⟨after, rfl⟩ := h
  rw [applyOps_append, Option.bind_eq_some_iff] at happlies
  obtain ⟨entries', happlies, -⟩ := happlies
  exact ⟨entries', happlies⟩

theorem AddedOnce.mono {later : List (PatchOperation α)} (h : AddedOnce later)
    (hops : ops <+: later) : AddedOnce ops :=
  fun before op hbefore => h before op (hbefore.trans hops)

theorem addedOnce_nil : AddedOnce ([] : List (PatchOperation α)) :=
  fun _ _ h => absurd (List.prefix_nil.1 h) (by simp)

theorem AddedOnce.concat (h : AddedOnce ops) (hop : Fits ops op) : AddedOnce (ops ++ [op]) := by
  intro before op' hbefore
  rcases List.prefix_concat_iff.1 hbefore with heq | hle
  · obtain ⟨rfl, hsame⟩ := List.append_inj' heq rfl
    cases hsame
    exact hop
  · exact h before op' hle

theorem replayed_tracks {messages : List (Except ε (LogMsg α))} (hsingle : SingleOperation messages)
    (happlies : applyOps (okOps (items messages)) [] = some entries)
    (honce : AddedOnce (okOps (items messages))) :
    Tracks (replayed messages) (okOps (items messages)) := by
  induction messages using List.reverseRecOn generalizing entries with
  | nil => exact Tracks.start rfl
  | append_singleton messages m ih =>
    have hbefore := items_mono (List.prefix_append messages [m])
    obtain ⟨entries', happlies'⟩ := applies_before (okOps_mono hbefore) happlies
    have htracks := ih (fun patch hpatch => hsingle patch (hbefore.subset hpatch)) happlies'
      (honce.mono (okOps_mono hbefore))
    rcases items_concat messages m with hsame | ⟨x, _, hmore⟩
    · rw [replayed, hsame]
      exact htracks
    · rw [replayed, hmore, List.foldl_append]
      rw [hmore] at happlies honce
      cases x with
      | error error =>
        rw [okOps_concat_error]
        exact htracks.error error
      | ok patch =>
        obtain ⟨op, rfl⟩ := hsingle patch (by rw [hmore]; exact List.mem_append_right _ (List.mem_singleton.2 rfl))
        rw [okOps_concat_ok] at happlies honce ⊢
        exact htracks.next (honce _ _ (List.prefix_refl _)) happlies

/-- The patches so far are replayed at every time exactly if each path is added once, before
everything else that names it, and from then on only replaced or removed. -/
theorem normalizedReplayStream_preserves (messages : List (Except ε (LogMsg α)))
    (hsingle : SingleOperation messages) {entries : List α}
    (happlies : applyOps (operations (history messages)) [] = some entries) :
    (∀ before, before <+: messages → Preserves before) ↔ AddedOnce (operations (history messages)) := by
  rw [operations_history] at happlies ⊢
  constructor
  · intro hall
    induction messages using List.reverseRecOn generalizing entries with
    | nil => exact addedOnce_nil
    | append_singleton messages m ih =>
      have hbefore := items_mono (List.prefix_append messages [m])
      obtain ⟨entries', happlies'⟩ := applies_before (okOps_mono hbefore) happlies
      have hsingle' : SingleOperation messages :=
        fun patch hpatch => hsingle patch (hbefore.subset hpatch)
      have honce := ih hsingle' happlies'
        fun before hle => hall before (hle.trans (List.prefix_append _ _))
      rcases items_concat messages m with hsame | ⟨x, _, hmore⟩
      · rw [hsame]
        exact honce
      · have htracks := replayed_tracks hsingle' happlies' honce
        have hlast := hall _ (List.prefix_refl _)
        rw [Preserves, operations_stream, operations_history, replayed, hmore,
          List.foldl_append] at hlast
        rw [hmore] at happlies ⊢
        cases x with
        | error error =>
          rw [okOps_concat_error]
          exact honce
        | ok patch =>
          obtain ⟨op, rfl⟩ := hsingle patch (by rw [hmore]; exact List.mem_append_right _ (List.mem_singleton.2 rfl))
          rw [okOps_concat_ok] at happlies hlast ⊢
          apply honce.concat
          by_contra hop
          exact htracks.broken hop happlies hlast
  · intro honce before hle
    have hitems := okOps_mono (items_mono hle)
    obtain ⟨entries', happlies'⟩ := applies_before hitems happlies
    have htracks := replayed_tracks (fun patch hpatch => hsingle patch ((items_mono hle).subset hpatch))
      happlies' (honce.mono hitems)
    rw [Preserves, operations_stream, operations_history]
    exact htracks.finish

theorem normalizedReplayStream_preserves_sample :
    Preserves (recorded [.add (.index 0) 5, .replace (.index 0) 6]) := by
  have hadd : Fits [] (PatchOperation.add (.index 0) 5) := fun _ h => nomatch h
  have hreplace : Fits [.add (.index 0) 5] (PatchOperation.replace (.index 0) 6) :=
    ⟨_, List.mem_singleton.2 rfl, rfl⟩
  exact (normalizedReplayStream_preserves (recorded [.add (.index 0) 5, .replace (.index 0) 6])
    (recorded_single _) rfl).2 ((addedOnce_nil.concat hadd).concat hreplace) _ (List.prefix_refl _)

/-- An index that is removed and added again, as by a transcript that starts over, is sent as a
replace of an entry that is not there. -/
theorem normalizedReplayStream_not_preserves :
    ¬ ∀ messages : List (Except Unit (LogMsg Nat)), SingleOperation messages →
      (applyOps (operations (history messages)) []).isSome = true → Preserves messages := by
  intro hall
  have hpreserves := hall (recorded [.add (.index 0) 5, .remove (.index 0), .add (.index 0) 6])
    (recorded_single _) rfl
  unfold Preserves at hpreserves
  revert hpreserves
  decide

end Cdesktop.Replay
