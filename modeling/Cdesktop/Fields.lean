import Mathlib.Data.List.Basic

/-! Texts that are fields with a separator between them. -/

namespace Fields
set_option autoImplicit true

/-- The fields with the separator between them. -/
def join (sep : Char) : List String → String
  | [] => ""
  | [s] => s
  | s :: t :: fields => s ++ sep.toString ++ join sep (t :: fields)

def Free (sep : Char) (s : String) : Prop := sep ∉ s.toList

theorem toList_join_cons (sep : Char) (s t : String) (fields : List String) :
    (join sep (s :: t :: fields)).toList = s.toList ++ sep :: (join sep (t :: fields)).toList := by
  have hsep : sep.toString.toList = [sep] := by simp [Char.toString]
  rw [join, String.toList_append, String.toList_append, hsep, List.append_assoc]
  rfl

/-- What comes before the first `a`, and what after it. -/
theorem append_cons_inj {a : α} (hxs : a ∉ xs) (hys : a ∉ ys)
    (h : xs ++ a :: us = ys ++ a :: vs) : xs = ys ∧ us = vs := by
  induction xs generalizing ys with
  | nil =>
    cases ys with
    | nil => exact ⟨rfl, (List.cons.inj h).2⟩
    | cons y ys => exact (hys ((List.cons.inj h).1 ▸ List.mem_cons_self)).elim
  | cons x xs ih =>
    cases ys with
    | nil => exact (hxs ((List.cons.inj h).1 ▸ List.mem_cons_self)).elim
    | cons y ys =>
      obtain ⟨hhead, htail⟩ := List.cons.inj h
      obtain ⟨hfirst, hrest⟩ := ih (fun hmem => hxs (List.mem_cons_of_mem _ hmem))
        (fun hmem => hys (List.mem_cons_of_mem _ hmem)) htail
      exact ⟨by rw [hhead, hfirst], hrest⟩

theorem join_cons_inj (hs : Free sep s) (hs' : Free sep s')
    (h : join sep (s :: t :: fields) = join sep (s' :: t' :: fields')) :
    s = s' ∧ join sep (t :: fields) = join sep (t' :: fields') := by
  have hlist := congrArg String.toList h
  rw [toList_join_cons, toList_join_cons] at hlist
  obtain ⟨hfirst, hrest⟩ := append_cons_inj hs hs' hlist
  exact ⟨String.toList_inj.mp hfirst, String.toList_inj.mp hrest⟩

theorem append_cons_inj_last {a : α} {xs us : List α} (hys : a ∉ ys) (hvs : a ∉ vs)
    (h : xs ++ a :: ys = us ++ a :: vs) : xs = us ∧ ys = vs := by
  have hreverse := congrArg List.reverse h
  rw [List.reverse_append, List.reverse_append, List.reverse_cons, List.reverse_cons,
    List.append_assoc, List.append_assoc] at hreverse
  have hnot : ∀ l : List α, a ∉ l → a ∉ l.reverse := by
    intro l hl hmem
    exact hl (List.mem_reverse.mp hmem)
  obtain ⟨hlast, hfront⟩ := append_cons_inj (hnot ys hys) (hnot vs hvs) hreverse
  exact ⟨List.reverse_injective hfront, List.reverse_injective hlast⟩

theorem append_cons_inj_of_all {p : α → Bool} (hxs : ∀ x ∈ xs, p x = true)
    (hys : ∀ y ∈ ys, p y = true) (ha : p a = false) (hb : p b = false)
    (h : xs ++ a :: us = ys ++ b :: vs) : xs = ys ∧ a :: us = b :: vs := by
  induction xs generalizing ys with
  | nil =>
    cases ys with
    | nil => exact ⟨rfl, h⟩
    | cons y ys =>
      have hy := hys y List.mem_cons_self
      rw [← (List.cons.inj h).1, ha] at hy
      cases hy
  | cons x xs ih =>
    cases ys with
    | nil =>
      have hx := hxs x List.mem_cons_self
      rw [(List.cons.inj h).1, hb] at hx
      cases hx
    | cons y ys =>
      obtain ⟨hhead, htail⟩ := List.cons.inj h
      obtain ⟨hfirst, hrest⟩ := ih (fun z hz => hxs z (List.mem_cons_of_mem _ hz))
        (fun z hz => hys z (List.mem_cons_of_mem _ hz)) htail
      exact ⟨by rw [hhead, hfirst], hrest⟩

theorem toList_join_concat (sep : Char) (s : String) (fields : List String) (t : String) :
    (join sep (s :: fields ++ [t])).toList = (join sep (s :: fields)).toList ++ sep :: t.toList := by
  induction fields generalizing s with
  | nil => exact toList_join_cons sep s t []
  | cons u fields ih =>
    have hcons := toList_join_cons sep s u (fields ++ [t])
    rw [List.cons_append, List.cons_append, hcons, ← List.cons_append, ih, toList_join_cons,
      List.append_assoc]
    rfl

theorem join_concat_inj {fields fields' : List String} (ht : Free sep t) (ht' : Free sep t')
    (h : join sep (s :: fields ++ [t]) = join sep (s' :: fields' ++ [t'])) :
    join sep (s :: fields) = join sep (s' :: fields') ∧ t = t' := by
  have hlist := congrArg String.toList h
  rw [toList_join_concat, toList_join_concat] at hlist
  obtain ⟨hfront, hlast⟩ := append_cons_inj_last ht ht' hlist
  exact ⟨String.toList_inj.mp hfront, String.toList_inj.mp hlast⟩

theorem isDigit_of_mem_repr {n : Nat} (h : c ∈ n.repr.toList) : c.isDigit = true := by
  rw [Nat.toList_repr] at h
  exact Nat.isDigit_of_mem_toDigits (by decide) (by decide) h

theorem free_repr (hsep : sep.isDigit = false) (n : Nat) : Free sep n.repr := by
  intro hmem
  rw [isDigit_of_mem_repr hmem] at hsep
  cases hsep

theorem toList_intRepr (n : Int) : ∃ k : Nat, n.repr.toList = k.repr.toList ∨
    n.repr.toList = '-' :: k.repr.toList := by
  rw [Int.repr_eq_if]
  split
  · exact ⟨n.toNat, Or.inl rfl⟩
  · refine ⟨(-n).toNat, Or.inr ?_⟩
    rw [String.toList_append]
    rfl

theorem free_intRepr (hsep : sep.isDigit = false) (hminus : sep ≠ '-') (n : Int) :
    Free sep n.repr := by
  intro hmem
  obtain ⟨k, heq | heq⟩ := toList_intRepr n
  · rw [heq] at hmem
    exact free_repr hsep k hmem
  · rw [heq, List.mem_cons] at hmem
    rcases hmem with hfirst | hdigits
    · exact hminus hfirst
    · exact free_repr hsep k hdigits

theorem intRepr_getElem_ne {i : Nat} (n : Int) : n.repr.toList[i + 1]? ≠ some '-' := by
  intro hget
  obtain ⟨k, heq | heq⟩ := toList_intRepr n
  · rw [heq] at hget
    exact absurd (isDigit_of_mem_repr (List.mem_of_getElem? hget)) (by decide)
  · rw [heq, List.getElem?_cons_succ] at hget
    exact absurd (isDigit_of_mem_repr (List.mem_of_getElem? hget)) (by decide)

end Fields
