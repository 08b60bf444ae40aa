import Cdesktop.RelayRefresh
import Mathlib.Data.List.DropRight
import Mathlib.Data.List.TakeWhile

/-! What `trim` leaves, and how it goes with `intercalate`. -/

namespace Cdesktop.Trim
open RelayRefresh (trim)
open TrustedKeys (isWhiteSpace)
set_option autoImplicit true

theorem dropWhile_cons_eq {p : α → Bool} (h : (x :: xs).dropWhile p = x :: xs) : p x = false := by
  exact Bool.eq_false_iff.mpr (List.dropWhile_eq_self_iff.mp h (Nat.succ_pos _))

theorem dropWhile_rdropWhile {l : List α} {p : α → Bool} (h : l.dropWhile p = l) :
    (l.rdropWhile p).dropWhile p = l.rdropWhile p := by
  cases hl : l.rdropWhile p with
  | nil => rfl
  | cons x xs =>
    obtain ⟨tail, htail⟩ := List.rdropWhile_prefix p (l := l)
    rw [hl, List.cons_append] at htail
    rw [← htail] at h
    exact List.dropWhile_cons_of_neg (Bool.eq_false_iff.mp (dropWhile_cons_eq h))

theorem trim_trim (s : String) : trim (trim s) = trim s := by
  have hends (l : List Char) : ((l.dropWhile isWhiteSpace).reverse.dropWhile isWhiteSpace).reverse =
      (l.dropWhile isWhiteSpace).rdropWhile isWhiteSpace := rfl
  unfold trim
  rw [String.toList_ofList, hends, hends, dropWhile_rdropWhile (List.dropWhile_idempotent _ _),
    List.rdropWhile_idempotent]

/-- A text with no white space at its ends. -/
structure Tight (s : String) : Prop where
  first : ∃ c cs, s.toList = c :: cs ∧ isWhiteSpace c = false
  last : ∃ cs c, s.toList = cs ++ [c] ∧ isWhiteSpace c = false

theorem Tight.ne_empty (h : Tight s) : s.isEmpty = false := by
  obtain ⟨c, cs, hcs, hc⟩ := h.first
  apply Bool.eq_false_iff.mpr
  intro hempty
  rw [String.isEmpty_iff.mp hempty] at hcs
  cases hcs

theorem Tight.trim_eq (h : Tight s) : trim s = s := by
  obtain ⟨c, cs, hfirst, hc⟩ := h.first
  obtain ⟨ds, d, hlast, hd⟩ := h.last
  have hstart : s.toList.dropWhile isWhiteSpace = s.toList := by
    rw [hfirst]
    exact List.dropWhile_cons_of_neg (Bool.eq_false_iff.mp hc)
  unfold trim
  rw [hstart, hlast, List.reverse_concat, List.dropWhile_cons_of_neg (Bool.eq_false_iff.mp hd),
    ← List.reverse_concat, List.reverse_reverse, ← hlast, String.ofList_toList]

theorem tight_trim (h : (trim s).isEmpty = false) : Tight (trim s) := by
  have hstart := dropWhile_rdropWhile (List.dropWhile_idempotent isWhiteSpace s.toList)
  have hend := List.rdropWhile_idempotent isWhiteSpace (s.toList.dropWhile isWhiteSpace)
  have htrim : (trim s).toList = (s.toList.dropWhile isWhiteSpace).rdropWhile isWhiteSpace :=
    String.toList_ofList
  have hne : (trim s).toList ≠ [] := by
    intro hnil
    rw [String.toList_eq_nil_iff.mp hnil] at h
    cases h
  rw [← htrim] at hstart hend
  constructor
  · obtain ⟨c, cs, hcs⟩ := List.exists_cons_of_ne_nil hne
    rw [hcs] at hstart
    exact ⟨c, cs, hcs, dropWhile_cons_eq hstart⟩
  · have hlast := List.rdropWhile_eq_self_iff.mp hend hne
    exact ⟨_, _, (List.dropLast_concat_getLast hne).symm, Bool.eq_false_iff.mpr hlast⟩

theorem Tight.append (ha : Tight a) (hb : Tight b) (m : String) : Tight (a ++ m ++ b) := by
  obtain ⟨c, cs, hfirst, hc⟩ := ha.first
  obtain ⟨ds, d, hlast, hd⟩ := hb.last
  constructor
  · apply Exists.intro c
    apply Exists.intro (cs ++ m.toList ++ b.toList)
    rw [String.toList_append, String.toList_append, hfirst]
    exact ⟨rfl, hc⟩
  · apply Exists.intro (a.toList ++ m.toList ++ ds)
    apply Exists.intro d
    rw [String.toList_append, String.toList_append, hlast, List.append_assoc _ ds]
    exact ⟨rfl, hd⟩

theorem intercalate_cons_cons (sep s t : String) (l : List String) :
    sep.intercalate (s :: t :: l) = sep.intercalate ((s ++ sep ++ t) :: l) := rfl

/-- Texts that are joined keep what they are, and the join needs no trimming either. -/
theorem intercalate_tight (sep s : String) (l : List String) (hs : Tight s)
    (hl : ∀ t ∈ l, Tight t) :
    Tight (sep.intercalate (s :: l)) ∧
      ∀ t ∈ s :: l, t.toList <:+: (sep.intercalate (s :: l)).toList := by
  induction l generalizing s with
  | nil =>
    apply And.intro hs
    intro t ht
    rw [List.mem_singleton.mp ht]
    exact List.infix_rfl
  | cons t l ih =>
    have ht : Tight t := hl t List.mem_cons_self
    have hjoin := ih (s ++ sep ++ t) (hs.append ht sep) fun u hu => hl u (List.mem_cons_of_mem _ hu)
    rw [intercalate_cons_cons]
    apply And.intro hjoin.1
    have hboth := hjoin.2 (s ++ sep ++ t) List.mem_cons_self
    rw [String.toList_append, String.toList_append] at hboth
    intro u hu
    cases hu with
    | head =>
      rw [List.append_assoc] at hboth
      exact (List.prefix_append _ _).isInfix.trans hboth
    | tail _ hu =>
      cases hu with
      | head => exact (List.suffix_append _ _).isInfix.trans hboth
      | tail _ hu => exact hjoin.2 u (List.mem_cons_of_mem _ hu)

end Cdesktop.Trim
