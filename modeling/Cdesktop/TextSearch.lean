import Mathlib.Data.List.Basic
import Mathlib.Data.List.TakeWhile
import Mathlib.Algebra.Ring.Nat

/-! Where a pattern is in a text, by characters and by the bytes of UTF-8 before it. -/

namespace TextSearch
set_option autoImplicit true

def size (text : List Char) : Nat := (text.map Char.utf8Size).sum

theorem size_cons (c : Char) (text : List Char) : size (c :: text) = c.utf8Size + size text := rfl

theorem size_append (text text' : List Char) : size (text ++ text') = size text + size text' := by
  rw [size, List.map_append, List.sum_append]
  rfl

/-- How many characters are before the first match. -/
def findAt (pattern : List Char) : List Char → Option Nat
  | [] => if pattern = [] then some 0 else none
  | c :: text =>
    if pattern <+: c :: text then some 0 else (findAt pattern text).map (· + 1)

/-- How many characters are before the last match. -/
def rfindAt (pattern : List Char) : List Char → Option Nat
  | [] => if pattern = [] then some 0 else none
  | c :: text =>
    match rfindAt pattern text with
    | some n => some (n + 1)
    | none => if pattern <+: c :: text then some 0 else none

def find (pattern text : List Char) : Option Nat :=
  (findAt pattern text).map fun n => size (text.take n)

def rfind (pattern text : List Char) : Option Nat :=
  (rfindAt pattern text).map fun n => size (text.take n)

/-- The text before so many bytes and behind them, where they end with a character. -/
def splitAt : List Char → Nat → Option (List Char × List Char)
  | text, 0 => some ([], text)
  | [], _ + 1 => none
  | c :: text, n + 1 =>
    if c.utf8Size ≤ n + 1 then
      (splitAt text (n + 1 - c.utf8Size)).map fun (before, after) => (c :: before, after)
    else none

theorem splitAt_append (before after : List Char) :
    splitAt (before ++ after) (size before) = some (before, after) := by
  induction before with
  | nil =>
    cases after <;> rfl
  | cons c before ih =>
    have hpos := c.utf8Size_pos
    obtain ⟨n, hn⟩ := Nat.exists_eq_succ_of_ne_zero (Nat.ne_of_gt (Nat.add_pos_left hpos (size before)))
    rw [size_cons, hn, List.cons_append, splitAt]
    have hle : c.utf8Size ≤ n + 1 := by omega
    have hrest : n + 1 - c.utf8Size = size before := by omega
    rw [if_pos hle, hrest, ih]
    rfl

theorem splitAt_take (text : List Char) (n : Nat) :
    splitAt text (size (text.take n)) = some (text.take n, text.drop n) := by
  have hsplit := splitAt_append (text.take n) (text.drop n)
  rw [List.take_append_drop] at hsplit
  exact hsplit

theorem findAt_begins (hne : pattern ≠ []) (h : findAt pattern text = some n) :
    pattern <+: text.drop n := by
  induction text generalizing n with
  | nil =>
    rw [findAt, if_neg hne] at h
    cases h
  | cons c text ih =>
    rw [findAt] at h
    split at h
    · next hbegins =>
      cases h
      exact hbegins
    · obtain ⟨m, hm, rfl⟩ := Option.map_eq_some_iff.mp h
      exact ih hm

theorem rfindAt_begins (hne : pattern ≠ []) (h : rfindAt pattern text = some n) :
    pattern <+: text.drop n := by
  induction text generalizing n with
  | nil =>
    rw [rfindAt, if_neg hne] at h
    cases h
  | cons c text ih =>
    rw [rfindAt] at h
    split at h
    · next m hm =>
      cases h
      exact ih hm
    · split at h
      · next hbegins =>
        cases h
        exact hbegins
      · cases h

theorem rfindAt_append_eq {text rest : List Char}
    (h : ∀ before after, after ≠ [] → text = before ++ after →
      (pattern <+: after ++ rest ↔ pattern <+: after)) (hne : pattern ≠ []) :
    rfindAt pattern (text ++ rest) =
      ((rfindAt pattern rest).map (text.length + ·)).or (rfindAt pattern text) := by
  induction text with
  | nil =>
    rw [List.nil_append, rfindAt, if_neg hne, Option.or_none]
    cases rfindAt pattern rest with
    | none => rfl
    | some n => exact congrArg some (Nat.zero_add n).symm
  | cons c text ih =>
    have htail := ih fun before after hafter heq => h (c :: before) after hafter (by rw [heq]; rfl)
    rw [List.cons_append, rfindAt, htail]
    cases hrest : rfindAt pattern rest with
    | some n =>
      change some (text.length + n + 1) = some (text.length + 1 + n)
      rw [Nat.add_right_comm]
    | none =>
      rw [Option.map_none, Option.none_or, Option.map_none, Option.none_or]
      have hiff := h [] (c :: text) (List.cons_ne_nil _ _) rfl
      rw [List.cons_append] at hiff
      rw [rfindAt]
      cases rfindAt pattern text with
      | some n => rfl
      | none =>
        dsimp only
        rw [if_congr hiff rfl rfl]

theorem rfindAt_append {last : Char} {pattern text rest : List Char} (hlast : last ∉ pattern.dropLast)
    (hne : pattern ≠ []) (htext : text = [] ∨ text.getLast? = some last) :
    rfindAt pattern (text ++ rest) =
      ((rfindAt pattern rest).map (text.length + ·)).or (rfindAt pattern text) := by
  apply rfindAt_append_eq _ hne
  intro before after hafter heq
  constructor
  · intro hbegins
    by_cases hle : pattern.length ≤ after.length
    · exact List.prefix_of_prefix_length_le hbegins (List.prefix_append _ _) hle
    · have hlt : after.length < pattern.length := Nat.lt_of_not_le hle
      have hafterPattern := List.prefix_of_prefix_length_le (List.prefix_append after rest) hbegins
        (Nat.le_of_lt hlt)
      have hdrop : after <+: pattern.dropLast := by
        rw [List.dropLast_eq_take]
        exact List.prefix_take_iff.mpr ⟨hafterPattern, by omega⟩
      have hend : text.getLast? = some last := by
        cases htext with
        | inl hnil =>
          rw [hnil] at heq
          exact absurd (List.append_eq_nil_iff.mp heq.symm).2 hafter
        | inr hend => exact hend
      rw [heq, List.getLast?_append_of_ne_nil _ hafter] at hend
      exact absurd (hdrop.subset (List.mem_of_getLast? hend)) hlast
  · exact fun hbegins => hbegins.trans (List.prefix_append _ _)

theorem find_cons (pattern : List Char) (c : Char) (text : List Char) :
    find pattern (c :: text) =
      if pattern <+: c :: text then some 0 else (find pattern text).map (c.utf8Size + ·) := by
  rw [find, findAt]
  split
  · rfl
  · rw [find, Option.map_map, Option.map_map]
    rfl

theorem rfind_cons (pattern : List Char) (c : Char) (text : List Char) :
    rfind pattern (c :: text) = ((rfind pattern text).map (c.utf8Size + ·)).or
      (if pattern <+: c :: text then some 0 else none) := by
  rw [rfind, rfindAt, rfind]
  cases rfindAt pattern text with
  | some n => rfl
  | none =>
    dsimp only
    split <;> rfl

theorem not_prefix_of_head (h : pattern.head? ≠ some c) (hne : pattern ≠ []) (text : List Char) :
    ¬ pattern <+: c :: text := by
  cases pattern with
  | nil => exact absurd rfl hne
  | cons d pattern => exact fun hbegins => h (congrArg some (List.cons_prefix_cons.mp hbegins).1)

theorem search_skip {search : List Char → Option Nat} {chars : List Char}
    (h : ∀ c ∈ chars, ∀ text, search (c :: text) = (search text).map (c.utf8Size + ·))
    (text : List Char) : search (chars ++ text) = (search text).map (size chars + ·) := by
  induction chars with
  | nil =>
    have hid : (size [] + ·) = (id : Nat → Nat) := funext fun n => Nat.zero_add n
    rw [List.nil_append, hid, Option.map_id]
    rfl
  | cons c chars ih =>
    rw [List.cons_append, h c List.mem_cons_self, ih fun d hd => h d (List.mem_cons_of_mem c hd),
      Option.map_map]
    apply Option.map_congr
    exact fun n _ => (Nat.add_assoc ..).symm

theorem find_skip {chars : List Char} (h : ∀ c ∈ chars, pattern.head? ≠ some c) (hne : pattern ≠ []) :
    ∀ text, find pattern (chars ++ text) = (find pattern text).map (size chars + ·) :=
  search_skip fun c hc _ => by rw [find_cons, if_neg (not_prefix_of_head (h c hc) hne _)]

theorem rfind_skip {chars : List Char} (h : ∀ c ∈ chars, pattern.head? ≠ some c) (hne : pattern ≠ []) :
    ∀ text, rfind pattern (chars ++ text) = (rfind pattern text).map (size chars + ·) :=
  search_skip fun c hc _ => by
    rw [rfind_cons, if_neg (not_prefix_of_head (h c hc) hne _), Option.or_none]

theorem rfindAt_cons (pattern : List Char) (c : Char) (text : List Char) :
    rfindAt pattern (c :: text) = ((rfindAt pattern text).map (· + 1)).or
      (if pattern <+: c :: text then some 0 else none) := by
  rw [rfindAt]
  cases rfindAt pattern text with
  | some n => rfl
  | none => exact (Option.none_or ..).symm

end TextSearch
