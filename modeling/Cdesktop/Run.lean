import Mathlib.Data.List.Basic

/-! Runs of a state that takes one step for each event. -/

namespace Run
set_option autoImplicit true
variable {σ ι : Type} (step : σ → ι → σ)

def run (s : σ) (events : List ι) : σ := events.foldl step s

/-- Every step of the run is as `ok` allows it in the state it is taken in. -/
def Each (ok : σ → ι → Prop) : σ → List ι → Prop
  | _, [] => True
  | s, event :: events => ok s event ∧ Each ok (step s event) events

instance Each.decidable (ok : σ → ι → Prop) [∀ s event, Decidable (ok s event)] :
    ∀ s events, Decidable (Each step ok s events)
  | _, [] => inferInstanceAs (Decidable True)
  | s, event :: events =>
    have := Each.decidable ok (step s event) events
    inferInstanceAs (Decidable (ok s event ∧ Each step ok (step s event) events))

variable {step}

@[simp] theorem run_nil (s : σ) : run step s [] = s := rfl

@[simp] theorem run_cons (s : σ) (event : ι) (events : List ι) :
    run step s (event :: events) = run step (step s event) events := rfl

theorem run_append (s : σ) (events later : List ι) :
    run step s (events ++ later) = run step (run step s events) later :=
  List.foldl_append

variable {ok : σ → ι → Prop}

theorem Each.append (h : Each step ok s (events ++ later)) :
    Each step ok s events ∧ Each step ok (run step s events) later := by
  induction events generalizing s with
  | nil => exact ⟨trivial, h⟩
  | cons event events ih => exact ⟨⟨h.1, (ih h.2).1⟩, (ih h.2).2⟩

theorem Each.trans (h : Each step ok s events)
    (hlater : Each step ok (run step s events) later) : Each step ok s (events ++ later) := by
  induction events generalizing s with
  | nil => exact hlater
  | cons event events ih => exact ⟨h.1, ih h.2 hlater⟩

theorem Each.concat (h : Each step ok s events)
    (hok : ok (run step s events) event) : Each step ok s (events ++ [event]) :=
  h.trans ⟨hok, trivial⟩

/-- A run is as `ok` allows it where each of its steps is, taken after those before it. -/
theorem Each.of_split
    (h : ∀ before event after, events = before ++ event :: after → ok (run step s before) event) :
    Each step ok s events := by
  induction events generalizing s with
  | nil => trivial
  | cons event events ih =>
    refine ⟨h [] event events rfl, ih fun before event' after heq => ?_⟩
    exact h (event :: before) event' after (by rw [heq, List.cons_append])

theorem split_concat {l before after : List β} (h : l ++ [x] = before ++ y :: after) :
    (∃ after', l = before ++ y :: after') ∨ before = l ∧ x = y := by
  cases List.eq_nil_or_concat after with
  | inl hnil =>
    rw [hnil] at h
    have hinj := List.append_inj' h rfl
    exact .inr ⟨hinj.1.symm, (List.cons.inj hinj.2).1⟩
  | inr hconcat =>
    obtain ⟨after', z, hafter⟩ := hconcat
    rw [hafter, List.concat_eq_append, ← List.cons_append, ← List.append_assoc] at h
    exact .inl ⟨after', (List.append_inj' h rfl).1⟩

theorem preserves {P : σ → Prop} (hstep : ∀ s event, P s → P (step s event)) (h : P s)
    (events : List ι) : P (run step s events) := by
  induction events generalizing s with
  | nil => exact h
  | cons event events ih => exact ih (hstep s event h)

theorem Each.preserves {P : σ → Prop}
    (hstep : ∀ s event, P s → ok s event → P (step s event)) (h : P s)
    (hrun : Each step ok s events) : P (run step s events) := by
  induction events generalizing s with
  | nil => exact h
  | cons event events ih => exact ih (hstep s event h hrun.1) hrun.2

end Run
