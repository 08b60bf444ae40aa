import Mathlib.Data.List.Basic

/-! A list cut into runs: elements with one key that follow each other are taken together, and those
without a key stand alone. -/

set_option autoImplicit true

/-- `Runs key single run xs ys`: each element of `ys` shows one of the longest runs of `xs`, in
order. -/
inductive Runs (key : α → Option κ) (single : α → β) (run : κ → α → List α → β) :
    List α → List β → Prop where
  | nil : Runs key single run [] []
  | single (x : α) (hx : key x = none) (h : Runs key single run xs ys) :
      Runs key single run (x :: xs) (single x :: ys)
  | run (k : κ) (x : α) (g : List α) (hkey : ∀ y ∈ x :: g, key y = some k)
      (hrest : ∀ y ∈ xs.head?, key y ≠ some k) (h : Runs key single run xs ys) :
      Runs key single run (x :: g ++ xs) (run k x g :: ys)

namespace Runs
variable {key : α → Option κ} {single : α → β} {run : κ → α → List α → β}

/-- Nothing is lost, repeated or moved. -/
theorem flatMap_eq (h : Runs key single run xs ys) {members : β → List γ} {parts : α → List γ}
    (hsingle : ∀ x, key x = none → members (single x) = parts x)
    (hrun : ∀ k x g, (∀ y ∈ x :: g, key y = some k) →
      members (run k x g) = (x :: g).flatMap parts) :
    ys.flatMap members = xs.flatMap parts := by
  induction h with
  | nil => rfl
  | single x hx h ih => rw [List.flatMap_cons, List.flatMap_cons, hsingle x hx, ih]
  | run k x g hkey hrest h ih => rw [List.flatMap_cons, List.flatMap_append, hrun k x g hkey, ih]

theorem of_mem (h : Runs key single run xs ys) (hy : y ∈ ys) :
    (∃ x ∈ xs, key x = none ∧ y = single x) ∨
      ∃ k x g, (∀ z ∈ x :: g, key z = some k) ∧ (∀ z ∈ x :: g, z ∈ xs) ∧ y = run k x g := by
  induction h with
  | nil => cases hy
  | single x hx h ih =>
    rcases List.mem_cons.1 hy with rfl | hy
    · exact .inl ⟨x, List.mem_cons_self, hx, rfl⟩
    · rcases ih hy with ⟨z, hz, hnone, rfl⟩ | ⟨k, z, g, hkey, hin, rfl⟩
      · exact .inl ⟨z, List.mem_cons_of_mem x hz, hnone, rfl⟩
      · exact .inr ⟨k, z, g, hkey, fun w hw => List.mem_cons_of_mem x (hin w hw), rfl⟩
  | run k x g hkey hrest h ih =>
    rcases List.mem_cons.1 hy with rfl | hy
    · exact .inr ⟨k, x, g, hkey, fun w hw => List.mem_append_left _ hw, rfl⟩
    · rcases ih hy with ⟨z, hz, hnone, rfl⟩ | ⟨k', z, g', hkey', hin, rfl⟩
      · exact .inl ⟨z, List.mem_append_right _ hz, hnone, rfl⟩
      · exact .inr ⟨k', z, g', hkey', fun w hw => List.mem_append_right _ (hin w hw), rfl⟩

theorem tail (h : Runs key single run xs (front ++ ys)) :
    ∃ before rest, xs = before ++ rest ∧ Runs key single run rest ys := by
  induction front generalizing xs with
  | nil => exact ⟨[], xs, rfl, h⟩
  | cons y front ih =>
    rw [List.cons_append] at h
    cases h with
    | single x hx h =>
      obtain ⟨before, rest, rfl, hrest⟩ := ih h
      exact ⟨x :: before, rest, rfl, hrest⟩
    | run k x g hkey hne h =>
      obtain ⟨before, rest, rfl, hrest⟩ := ih h
      exact ⟨x :: g ++ before, rest, (List.append_assoc ..).symm, hrest⟩

/-- `kind` reads the key off what is shown. -/
structure Shows (key : α → Option κ) (single : α → β) (run : κ → α → List α → β)
    (kind : β → Option κ) : Prop where
  single : ∀ x, key x = none → kind (single x) = none
  run : ∀ k x g, (∀ y ∈ x :: g, key y = some k) → kind (run k x g) = some k

/-- The first one shown has the key of the first element. -/
theorem kind_head (h : Runs key single run xs (y :: ys)) {kind : β → Option κ}
    (hkind : Shows key single run kind) : ∃ x, xs.head? = some x ∧ kind y = key x := by
  cases h with
  | single x hx h => exact ⟨x, rfl, (hkind.single x hx).trans hx.symm⟩
  | run k x g hkey hrest h =>
    exact ⟨x, rfl, (hkind.run k x g hkey).trans (hkey x List.mem_cons_self).symm⟩

theorem neighbours (h : Runs key single run xs (front ++ a :: b :: ys)) {kind : β → Option κ}
    (hkind : Shows key single run kind) (ha : kind a = some k) : kind b ≠ some k := by
  obtain ⟨before, rest, -, htail⟩ := h.tail
  cases htail with
  | single x hx h =>
    rw [hkind.single x hx] at ha
    cases ha
  | run k' x g hkey hrest h =>
    obtain ⟨y, hy, hky⟩ := kind_head h hkind
    have hk := (hkind.run k' x g hkey).symm.trans ha
    cases hk
    rw [hky]
    exact hrest y hy

end Runs
