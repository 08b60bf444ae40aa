import Mathlib.Data.List.Basic
import Mathlib.Data.List.Nodup
import Mathlib.Data.List.TakeWhile

namespace Table
set_option autoImplicit true

/-- Whether a statement is carried out, and whether its result comes back. -/
inductive Reply where
  | ok | failed | lost
deriving DecidableEq

/-- `UPDATE … SET f WHERE p` on a table kept as the list of its rows in insertion order. -/
def update (p : α → Bool) (f : α → α) (t : List α) : List α :=
  t.map fun r => if p r then f r else r

variable {p : α → Bool} {f : α → α} {t : List α} {r : α}

theorem mem_update :
    r ∈ update p f t ↔ (∃ r₀ ∈ t, p r₀ = true ∧ f r₀ = r) ∨ (r ∈ t ∧ p r = false) := by
  simp only [update, List.mem_map]
  constructor
  · rintro ⟨r₀, hr, rfl⟩
    cases hp : p r₀ with
    | true => exact .inl ⟨r₀, hr, hp, by simp⟩
    | false => exact .inr (by simpa [hp] using hr)
  · rintro (⟨r₀, hr, hp, rfl⟩ | ⟨hr, hp⟩)
    · exact ⟨r₀, hr, by simp [hp]⟩
    · exact ⟨r, hr, by simp [hp]⟩

theorem mem_update_of_false (hr : r ∈ t) (hp : p r = false) : r ∈ update p f t :=
  mem_update.2 (.inr ⟨hr, hp⟩)

theorem mem_update_of_true (hr : r ∈ t) (hp : p r = true) : f r ∈ update p f t :=
  mem_update.2 (.inl ⟨r, hr, hp, rfl⟩)

theorem update_map (key : α → β)
    (h : ∀ r ∈ t, p r = true → key (f r) = key r) : (update p f t).map key = t.map key := by
  simp only [update, List.map_map]
  apply List.map_congr_left
  intro r hr
  cases hp : p r with
  | true => simpa [hp] using h r hr hp
  | false => simp [hp]

theorem update_eq_self (h : ∀ r ∈ t, p r = false) : update p f t = t := by
  simp only [update]
  conv_rhs => rw [← List.map_id t]
  apply List.map_congr_left
  intro r hr
  simp [h r hr]

theorem eq_of_key {key : α → β} (hn : (t.map key).Nodup) {r' : α}
    (hr : r ∈ t) (hr' : r' ∈ t) (hk : key r = key r') : r = r' :=
  List.inj_on_of_nodup_map hn hr hr' hk

theorem length_filter_le_one (ht : t.Nodup)
    (h : ∀ r ∈ t, ∀ r' ∈ t, p r = true → p r' = true → r = r') : (t.filter p).length ≤ 1 := by
  have hn := ht.filter p
  cases hl : t.filter p with
  | nil => simp
  | cons r l =>
    cases l with
    | nil => simp
    | cons r' l =>
      have hr := List.mem_filter.1 (hl ▸ List.mem_cons_self : r ∈ t.filter p)
      have hr' := List.mem_filter.1
        (hl ▸ List.mem_cons_of_mem _ List.mem_cons_self : r' ∈ t.filter p)
      rw [hl, h r hr.1 r' hr'.1 hr.2 hr'.2] at hn
      simp at hn

theorem filter_key_eq [DecidableEq β] {key : α → β} {l : List α} (hl : l.Sublist t)
    (hn : (t.map key).Nodup) : t.filter (fun r => decide (key r ∈ l.map key)) = l := by
  induction hl with
  | slnil => rfl
  | @cons l t a hl ih =>
    simp only [List.map_cons, List.nodup_cons] at hn
    have ha : key a ∉ l.map key := fun h => hn.1 ((hl.map key).subset h)
    simp only [List.filter_cons, ha, decide_false, Bool.false_eq_true, ↓reduceIte]
    exact ih hn.2
  | @cons_cons l t a hl ih =>
    simp only [List.map_cons, List.nodup_cons] at hn
    simp only [List.filter_cons, List.map_cons, List.mem_cons, true_or, decide_true, ↓reduceIte,
      List.cons.injEq, true_and]
    conv_rhs => rw [← ih hn.2]
    apply List.filter_congr
    intro r hr
    have hne : key r ≠ key a := fun he => hn.1 (he ▸ List.mem_map_of_mem hr)
    simp [hne]

theorem filter_update {q : α → Bool}
    (hf : ∀ r ∈ t, p r = true → q (f r) = true) (hq : ∀ r ∈ t, p r = false → q r = false) :
    (update p f t).filter q = (t.filter p).map f := by
  induction t with
  | nil => rfl
  | cons a t ih =>
    have ih' := ih (fun r hr => hf r (List.mem_cons_of_mem _ hr))
      (fun r hr => hq r (List.mem_cons_of_mem _ hr))
    simp only [update] at ih'
    simp only [update, List.map_cons]
    cases hp : p a with
    | true =>
      have hqa := hf a List.mem_cons_self hp
      simp [hp, hqa, ih']
    | false =>
      have hqa := hq a List.mem_cons_self hp
      simp [hp, hqa, ih']

theorem countP_update_le (p q : α → Bool) (f : α → α) (t : List α) :
    (update p f t).countP q ≤ t.countP q + t.countP fun r => p r && q (f r) := by
  induction t with
  | nil => exact le_refl _
  | cons a t ih =>
    simp only [update] at ih
    simp only [update, List.map_cons, List.countP_cons]
    cases hp : p a with
    | true =>
      simp only [↓reduceIte, Bool.true_and]
      omega
    | false =>
      simp only [Bool.false_eq_true, ↓reduceIte, Bool.false_and]
      omega

theorem countP_update_mono {q : α → Bool}
    (h : ∀ r, p r = true → q (f r) = true → q r = true) : (update p f t).countP q ≤ t.countP q := by
  rw [update, List.countP_map]
  apply List.countP_mono_left
  intro r _ hr
  simp only [Function.comp_apply] at hr
  cases hp : p r with
  | true =>
    rw [hp, if_pos rfl] at hr
    exact h r hp hr
  | false =>
    rw [hp, if_neg Bool.false_ne_true] at hr
    exact hr

end Table
