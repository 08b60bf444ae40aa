import Cdesktop.MsgStore
import Mathlib.Data.List.MinMax

/-! The index that a conversation goes on with, read off the patches that a store still keeps. -/

namespace Cdesktop.EntryIndex
open ExecutionLog (maxU64 saturatingAdd)
set_option autoImplicit true

inductive PatchOperation where
  | add (path : List Char)
  | remove (path : List Char)
  | replace (path : List Char)
  | move (source path : List Char)
  | copy (source path : List Char)
  | test (path : List Char)

inductive LogMsg where
  | stdout (text : String)
  | stderr (text : String)
  | jsonPatch (patch : List PatchOperation)
  | sessionId (id : String)
  | messageId (id : String)
  | ready
  | finished

/-- `str::parse::<usize>`, on a machine of 64 bits -/
def parseUsize (text : List Char) : Option Nat :=
  let digits := if text.head? = some '+' then text.tail else text
  if digits ≠ [] ∧ digits.all Char.isDigit ∧ Nat.ofDigitChars 10 digits 0 ≤ maxU64 then
    some (Nat.ofDigitChars 10 digits 0)
  else none

def PatchOperation.entry : PatchOperation → Option Nat
  | .add path => ("/entries/".toList.isPrefixOf? path).bind parseUsize
  | _ => none

def LogMsg.patch : LogMsg → List PatchOperation
  | .jsonPatch patch => patch
  | _ => []

/-- What `start_from` sees of a message. -/
def LogMsg.firstEntry (msg : LogMsg) : Option Nat := msg.patch.findSome? PatchOperation.entry

/-- The lock is poisoned once the sequence is exhausted. -/
def getHistory (s : MsgStore LogMsg) : Option (List LogMsg) :=
  if s.poisoned then none else some (s.history.map StoredMsg.msg)

def startFrom (s : MsgStore LogMsg) : Option Nat :=
  (getHistory s).map fun history =>
    (history.filterMap LogMsg.firstEntry).max?.elim 0 fun n => saturatingAdd n 1

/-- `fetch_add(1)`: the index that is handed out, and the counter after it. -/
def next (provider : Nat) : Nat × Nat := (provider, (provider + 1) % 2 ^ 64)

def handed (provider : Nat) : Nat → List Nat
  | 0 => []
  | n + 1 => (next provider).1 :: handed (next provider).2 n

def pushAll (historyBytes : Nat) (pushes : List (LogMsg × Nat)) (s : MsgStore LogMsg) :
    MsgStore LogMsg :=
  pushes.foldl (fun s p => s.push historyBytes p.1 p.2) s

def used (pushes : List (LogMsg × Nat)) : List Nat :=
  pushes.flatMap fun p => p.1.patch.filterMap PatchOperation.entry

def Fresh (used indices : List Nat) : Prop :=
  indices.Nodup ∧ ∀ i ∈ indices, ∀ k ∈ used, k < i

theorem handed_append {p : Nat} (hp : p < 2 ^ 64) (m n : Nat) :
    handed p (m + n) = handed p m ++ handed ((p + m) % 2 ^ 64) n := by
  induction m generalizing p with
  | zero =>
    rw [Nat.zero_add, Nat.add_zero, Nat.mod_eq_of_lt hp]
    rfl
  | succ m ih =>
    rw [Nat.succ_add, handed, handed, next, ih (Nat.mod_lt _ (by decide)), Nat.mod_add_mod,
      Nat.add_assoc, Nat.add_comm 1 m]
    rfl

theorem handed_range {p : Nat} (h : p + n ≤ 2 ^ 64) : handed p n = List.range' p n := by
  induction n generalizing p with
  | zero => rfl
  | succ n ih =>
    rw [handed, next, List.range'_succ]
    by_cases hn : n = 0
    · rw [hn]
      rfl
    · have hlt : p + 1 < 2 ^ 64 := by omega
      rw [Nat.mod_eq_of_lt hlt, ih (by omega)]

theorem handed_wrap {p : Nat} (hp : p < 2 ^ 64) (h : 2 ^ 64 < p + n) :
    ∃ later, handed p n = List.range' p (2 ^ 64 - p) ++ 0 :: later := by
  obtain ⟨k, hk⟩ : ∃ k, n = (2 ^ 64 - p) + (k + 1) := ⟨n - (2 ^ 64 - p) - 1, by omega⟩
  have hround : (p + (2 ^ 64 - p)) % 2 ^ 64 = 0 := by
    rw [Nat.add_sub_cancel' (Nat.le_of_lt hp), Nat.mod_self]
  rw [hk, handed_append hp, handed_range (Nat.add_sub_cancel' (Nat.le_of_lt hp)).le, hround]
  exact ⟨_, rfl⟩

theorem LogMsg.firstEntry_mem {msg : LogMsg} (h : msg.firstEntry = some n) :
    n ∈ msg.patch.filterMap PatchOperation.entry := by
  obtain ⟨op, hop, hentry⟩ := List.exists_of_findSome?_eq_some h
  exact List.mem_filterMap.mpr ⟨op, hop, hentry⟩

theorem evict_suffix (historyBytes bytes : Nat) (history : List (StoredMsg α)) (total : Nat) :
    (evict historyBytes bytes history total).1 <:+ history := by
  induction history generalizing total with
  | nil => exact List.suffix_rfl
  | cons front history ih =>
    rw [evict]
    split
    · exact (ih _).trans (List.suffix_cons front history)
    · exact List.suffix_rfl

theorem mem_history_push {s : MsgStore α} (h : stored ∈ (s.push historyBytes msg bytes).history) :
    stored ∈ s.history ∨ stored.msg = msg := by
  obtain ⟨hpanic, -⟩ | ⟨history, total, hevict, hpush⟩ := s.push_cases historyBytes msg bytes
  · rw [hpanic] at h
    exact .inl h
  · have hsuffix := evict_suffix historyBytes bytes s.history s.totalBytes
    rw [hevict] at hsuffix
    rw [hpush] at h
    split at h
    · obtain hold | hnew := List.mem_append.mp h
      · exact .inl (hsuffix.mem hold)
      · rw [List.mem_singleton.mp hnew]
        exact .inr rfl
    · exact .inl (hsuffix.mem h)

theorem mem_history_pushAll (pushes : List (LogMsg × Nat)) {s : MsgStore LogMsg}
    (h : stored ∈ (pushAll historyBytes pushes s).history) :
    stored ∈ s.history ∨ ∃ p ∈ pushes, stored.msg = p.1 := by
  induction pushes generalizing s with
  | nil => exact .inl h
  | cons p pushes ih =>
    obtain hold | ⟨q, hq, hmsg⟩ := ih h
    · exact (mem_history_push hold).imp_right fun hmsg => ⟨p, List.mem_cons_self, hmsg⟩
    · exact .inr ⟨q, List.mem_cons_of_mem p hq, hmsg⟩

theorem firstEntry_used {pushes : List (LogMsg × Nat)}
    (h : stored ∈ (pushAll historyBytes pushes .new).history)
    (hfirst : stored.msg.firstEntry = some n) : n ∈ used pushes := by
  obtain hnone | ⟨p, hp, hmsg⟩ := mem_history_pushAll pushes h
  · cases hnone
  · rw [hmsg] at hfirst
    exact List.mem_flatMap.mpr ⟨p, hp, LogMsg.firstEntry_mem hfirst⟩

theorem startFrom_cases (h : startFrom s = some provider) :
    provider = 0 ∧ (∀ stored ∈ s.history, stored.msg.firstEntry = none) ∨
      ∃ m, provider = saturatingAdd m 1 ∧
        (∃ stored ∈ s.history, stored.msg.firstEntry = some m) ∧
        ∀ stored ∈ s.history, ∀ k, stored.msg.firstEntry = some k → k ≤ m := by
  obtain ⟨history, hhistory, rfl⟩ := Option.map_eq_some_iff.mp h
  rw [getHistory, Option.ite_none_left_eq_some] at hhistory
  rw [← Option.some.inj hhistory.2, List.filterMap_map]
  cases hmax : (s.history.filterMap (LogMsg.firstEntry ∘ StoredMsg.msg)).max? with
  | none =>
    refine .inl ⟨rfl, fun stored hstored => ?_⟩
    exact List.filterMap_eq_nil_iff.mp (List.max?_eq_none_iff.mp hmax) stored hstored
  | some m =>
    obtain ⟨hmem, hle⟩ := List.max?_eq_some_iff.mp hmax
    refine .inr ⟨m, rfl, List.mem_filterMap.mp hmem, fun stored hstored k hk => ?_⟩
    exact hle k (List.mem_filterMap.mpr ⟨stored, hstored, hk⟩)

/-- The indices that a provider hands out are new and distinct where every index that was used is at
most the first one of a message that the store still keeps, and where the counter does not come to
its end. -/
theorem startFrom_fresh_iff (historyBytes : Nat) (pushes : List (LogMsg × Nat)) (n : Nat)
    (h : startFrom (pushAll historyBytes pushes .new) = some provider) :
    Fresh (used pushes) (handed provider n) ↔
      n = 0 ∨ n ≤ 2 ^ 64 ∧ ∀ k ∈ used pushes, k + n < 2 ^ 64 ∧
        ∃ stored ∈ (pushAll historyBytes pushes .new).history, ∃ first,
          stored.msg.firstEntry = some first ∧ k ≤ first := by
  have hstart := startFrom_cases h
  have hprovider : provider < 2 ^ 64 := by
    obtain ⟨rfl, -⟩ | ⟨m, rfl, -, -⟩ := hstart
    · decide
    · unfold saturatingAdd maxU64
      omega
  constructor
  · intro ⟨hnodup, hnew⟩
    by_cases hn : n = 0
    · exact .inl hn
    obtain ⟨n, rfl⟩ := Nat.exists_eq_succ_of_ne_zero hn
    have hbelow : ∀ k ∈ used pushes, k < provider := hnew provider List.mem_cons_self
    have hfits : provider + (n + 1) ≤ 2 ^ 64 := by
      by_contra hwraps
      obtain ⟨later, hlater⟩ := handed_wrap hprovider (Nat.lt_of_not_le hwraps)
      rw [hlater] at hnodup hnew
      -- zero comes again, so nothing was used, and the provider started from zero
      have hzero := hnew 0 (List.mem_append_right _ List.mem_cons_self)
      obtain ⟨rfl, -⟩ | ⟨m, -, ⟨stored, hstored, hfirst⟩, -⟩ := hstart
      · have hfirst : 0 ∈ List.range' 0 (2 ^ 64 - 0) :=
          List.mem_range'_1.mpr ⟨Nat.le_refl 0, by decide⟩
        exact (List.nodup_append.mp hnodup).2.2 0 hfirst 0 List.mem_cons_self rfl
      · exact Nat.not_lt_zero m (hzero m (firstEntry_used hstored hfirst))
    refine .inr ⟨by omega, fun k hk => ⟨by have := hbelow k hk; omega, ?_⟩⟩
    obtain ⟨rfl, -⟩ | ⟨m, rfl, ⟨stored, hstored, hfirst⟩, -⟩ := hstart
    · exact absurd (hbelow k hk) (Nat.not_lt_zero k)
    · refine ⟨stored, hstored, m, hfirst, Nat.le_of_lt_succ ?_⟩
      exact Nat.lt_of_lt_of_le (hbelow k hk) (Nat.min_le_left ..)
  · rintro (rfl | ⟨hn, hused⟩)
    · exact ⟨List.nodup_nil, nofun⟩
    by_cases hzero : n = 0
    · rw [hzero]
      exact ⟨List.nodup_nil, nofun⟩
    have hbelow : ∀ k ∈ used pushes, k < provider := by
      intro k hk
      obtain ⟨hlt, stored, hstored, first, hfirst, hle⟩ := hused k hk
      obtain ⟨-, hnone⟩ | ⟨m, rfl, -, hgreatest⟩ := hstart
      · rw [hnone stored hstored] at hfirst
        cases hfirst
      · have hm := hgreatest stored hstored first hfirst
        unfold saturatingAdd maxU64
        omega
    have hfits : provider + n ≤ 2 ^ 64 := by
      obtain ⟨rfl, -⟩ | ⟨m, rfl, ⟨stored, hstored, hfirst⟩, -⟩ := hstart
      · rwa [Nat.zero_add]
      · have hlt := (hused m (firstEntry_used hstored hfirst)).1
        have hle : saturatingAdd m 1 ≤ m + 1 := Nat.min_le_left ..
        omega
    rw [handed_range hfits]
    refine ⟨List.nodup_range', fun i hi k hk => ?_⟩
    exact Nat.lt_of_lt_of_le (hbelow k hk) (List.mem_range'_1.mp hi).1

theorem startFrom_fresh_two : Fresh [0, 1] [2, 3] := by
  refine (startFrom_fresh_iff 100
    [(.jsonPatch [.add "/entries/0".toList], 10), (.jsonPatch [.add "/entries/1".toList], 10),
      (.jsonPatch [.replace "/entries/0".toList], 10)] 2 rfl).mpr (.inr ⟨by decide, ?_⟩)
  intro k hk
  have hle : k ≤ 1 := by
    obtain rfl | rfl := List.mem_pair.mp hk
    · exact Nat.zero_le 1
    · exact Nat.le_refl 1
  exact ⟨by omega, _, .tail _ (.head _), 1, rfl, hle⟩

theorem not_startFrom_fresh : ¬ ∀ historyBytes pushes n provider,
    startFrom (pushAll historyBytes pushes .new) = some provider →
      Fresh (used pushes) (handed provider n) := fun h =>
  absurd
    ((h 100 [(.jsonPatch [.add "/entries/0".toList, .add "/entries/5".toList], 10)] 1 1 rfl).2
      1 List.mem_cons_self 5 (.tail _ (.head _)))
    (by decide)

end Cdesktop.EntryIndex
