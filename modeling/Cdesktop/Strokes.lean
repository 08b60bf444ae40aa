import Mathlib.Logic.Equiv.List

/-! Values as texts: some of them by a table, all others as a number of strokes. -/

namespace Strokes
set_option autoImplicit true

instance encodableUInt8 : Encodable UInt8 := Encodable.ofLeftInverse UInt8.toNat UInt8.ofNat fun n => by simp

instance encodableChar : Encodable Char := Encodable.ofLeftInverse Char.toNat Char.ofNat Char.ofNat_toNat

instance encodableString : Encodable String :=
  Encodable.ofLeftInverse String.toList String.ofList fun _ => String.ofList_toList

def strokes (n : Nat) : String := String.ofList (List.replicate (n + 1) '!')

variable {α : Type} [DecidableEq α] [Encodable α] {table : List (α × String)}

def text (table : List (α × String)) (a : α) : String :=
  match table.find? fun entry => entry.1 = a with
  | some entry => entry.2
  | none => strokes (Encodable.encode a)

def read (table : List (α × String)) (s : String) : Option α :=
  match table.find? fun entry => entry.2 = s with
  | some entry => some entry.1
  | none =>
    if s = strokes (s.length - 1) then Encodable.decode (s.length - 1) else none

/-- No text is that of two values, and none begins with a stroke. -/
structure Good (table : List (α × String)) : Prop where
  inj : ∀ entry ∈ table, ∀ entry' ∈ table, entry.2 = entry'.2 → entry.1 = entry'.1
  head : ∀ entry ∈ table, entry.2.toList.head? ≠ some '!'

theorem toList_strokes (n : Nat) : (strokes n).toList = '!' :: List.replicate n '!' := by
  rw [strokes, String.toList_ofList, List.replicate_succ]

theorem length_strokes (n : Nat) : (strokes n).length = n + 1 := by
  rw [← String.length_toList, toList_strokes, List.length_cons, List.length_replicate]

omit [DecidableEq α] [Encodable α] in
theorem Good.ne_strokes (h : Good table) {entry : α × String} (hentry : entry ∈ table) (n : Nat) :
    entry.2 ≠ strokes n := by
  intro heq
  apply h.head entry hentry
  rw [heq, toList_strokes]
  rfl

theorem read_text (h : Good table) (a : α) : read table (text table a) = some a := by
  rw [text]
  split
  · rename_i entry hfind
    have hentry := List.mem_of_find?_eq_some hfind
    have ha : entry.1 = a := by simpa using List.find?_some hfind
    rw [read]
    split
    · rename_i entry' hfind'
      have htext : entry'.2 = entry.2 := by simpa using List.find?_some hfind'
      rw [h.inj entry' (List.mem_of_find?_eq_some hfind') entry hentry htext, ha]
    · rename_i hnone
      have hne := List.find?_eq_none.mp hnone entry hentry
      simp at hne
  · rw [read]
    split
    · rename_i entry' hfind'
      have htext : entry'.2 = strokes (Encodable.encode a) := by
        simpa using List.find?_some hfind'
      exact (h.ne_strokes (List.mem_of_find?_eq_some hfind') _ htext).elim
    · rw [length_strokes, Nat.add_sub_cancel, if_pos rfl, Encodable.encodek]

theorem text_cases {P : String → Prop} (h : ∀ entry ∈ table, P entry.2)
    (hstrokes : ∀ n, P (strokes n)) (a : α) : P (text table a) := by
  rw [text]
  split
  · rename_i entry hfind
    exact h entry (List.mem_of_find?_eq_some hfind)
  · exact hstrokes _

theorem not_mem_text {c : Char} (hc : c ≠ '!') (h : ∀ entry ∈ table, c ∉ entry.2.toList) (a : α) :
    c ∉ (text table a).toList := by
  apply text_cases (P := fun s => c ∉ s.toList) h
  intro n hmem
  rw [strokes, String.toList_ofList] at hmem
  exact hc (List.eq_of_mem_replicate hmem)

end Strokes
