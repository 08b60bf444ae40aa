import Mathlib.Data.List.Nodup
import Mathlib.Data.List.Infix
import Mathlib.Logic.Function.Basic

/-! Lists in which every element is what is expected under its own label. -/

namespace Labels
set_option autoImplicit true

/-- The labels of the elements are different, and there is one for everything that is expected. -/
structure Labelled (expected : ι → Option α) (elements : List α) (labels : List ι) : Prop where
  nodup : labels.Nodup
  elements : labels.map expected = elements.map some
  complete : ∀ l, expected l ≠ none → l ∈ labels

theorem Labelled.nil : Labelled (fun _ => none : ι → Option α) [] [] :=
  ⟨List.nodup_nil, rfl, fun _ h => absurd rfl h⟩

theorem getElem?_of_isPrefix {labels labels' : List ι} (hp : labels <+: labels') {k : Nat} {l : ι}
    (h : labels[k]? = some l) : labels'[k]? = some l := by
  obtain ⟨rest, rfl⟩ := hp
  rw [List.getElem?_append_left (List.getElem?_eq_some_iff.1 h).1]
  exact h

variable {expected : ι → Option α} {elements : List α} {labels : List ι}

theorem Labelled.length (h : Labelled expected elements labels) :
    labels.length = elements.length := by
  have hl := congrArg List.length h.elements
  simpa using hl

theorem Labelled.notMem (h : Labelled expected elements labels) {l : ι} (hl : expected l = none) :
    l ∉ labels := by
  intro hm
  have hmem : expected l ∈ elements.map some := h.elements ▸ List.mem_map_of_mem hm
  rw [hl] at hmem
  obtain ⟨a, -, ha⟩ := List.mem_map.1 hmem
  cases ha

variable [DecidableEq ι]

theorem Labelled.set (h : Labelled expected elements labels) {k : Nat} {l : ι}
    (hk : labels[k]? = some l) (a : α) :
    Labelled (Function.update expected l (some a)) (elements.set k a) labels := by
  refine ⟨h.nodup, ?_, fun l' hl' => ?_⟩
  · refine List.ext_getElem? fun i => ?_
    have hi := congrArg (·[i]?) h.elements
    simp only [List.getElem?_map] at hi
    have hlt : k < elements.length := h.length ▸ (List.getElem?_eq_some_iff.1 hk).1
    rw [List.getElem?_map, List.getElem?_map, List.getElem?_set]
    by_cases he : k = i
    · subst he
      simp [hk, hlt]
    · rw [if_neg he, ← hi]
      cases hl : labels[i]? with
      | none => rfl
      | some l' =>
        have hne : l' ≠ l := by
          rintro rfl
          exact he ((List.getElem?_inj (List.getElem?_eq_some_iff.1 hk).1 h.nodup).1
            (hk.trans hl.symm))
        simp [hne]
  · by_cases he : l' = l
    · rw [he]
      exact List.mem_of_getElem? hk
    · rw [Function.update_of_ne he] at hl'
      exact h.complete l' hl'

theorem Labelled.concat (h : Labelled expected elements labels) {l : ι} (hl : expected l = none)
    (a : α) :
    Labelled (Function.update expected l (some a)) (elements ++ [a]) (labels ++ [l]) := by
  have hnew := h.notMem hl
  refine ⟨?_, ?_, fun l' hl' => ?_⟩
  · rw [List.nodup_append]
    refine ⟨h.nodup, List.nodup_singleton l, fun l' hm l'' hm' he => hnew ?_⟩
    rw [← List.mem_singleton.1 hm', ← he]
    exact hm
  · have hsame : labels.map (Function.update expected l (some a)) = labels.map expected := by
      apply List.map_congr_left
      intro l' hm
      have hne : l' ≠ l := by
        rintro rfl
        exact hnew hm
      exact Function.update_of_ne hne _ _
    rw [List.map_append, List.map_append, hsame, h.elements]
    simp
  · rw [List.mem_append, List.mem_singleton]
    by_cases he : l' = l
    · exact .inr he
    · rw [Function.update_of_ne he] at hl'
      exact .inl (h.complete l' hl')

end Labels
