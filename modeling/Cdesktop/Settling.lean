import Mathlib.Data.Nat.Find
import Mathlib.Logic.Function.Iterate

/-! Systems that come to rest: a step either is idle and keeps the rank, or lowers the rank. -/

namespace Settling
set_option autoImplicit true

variable {σ : Type u}

def Settles (step : σ → σ) (Idle : σ → Prop) (s : σ) : Prop := ∃ n, ∀ m, n ≤ m → Idle (step^[m] s)

variable {step : σ → σ} {Idle : σ → Prop}

theorem Settles.of_step (h : Settles step Idle (step s)) :
    Settles step Idle s := by
  obtain ⟨n, hn⟩ := h
  apply Exists.intro (n + 1)
  intro m hm
  cases m with
  | zero => omega
  | succ m => exact hn m (by omega)

theorem Settles.of_iterate (n : Nat)
    (h : Settles step Idle (step^[n] s)) : Settles step Idle s := by
  induction n generalizing s with
  | zero => exact h
  | succ n ih => exact .of_step (ih h)

/-- A rank that falls at every step that is not idle settles the system. -/
theorem settles_of_ranked {Ranked : Nat → σ → Prop}
    (hstep : ∀ k s, Ranked k s → Idle s ∧ Ranked k (step s) ∨ ∃ j < k, Ranked j (step s))
    (h : Ranked k s) : Settles step Idle s := by
  induction k using Nat.strong_induction_on generalizing s with
  | h k ih =>
    by_cases hrest : ∀ n, Ranked k (step^[n] s) → Idle (step^[n] s) ∧ Ranked k (step (step^[n] s))
    · have hranked (n : Nat) : Ranked k (step^[n] s) := by
        induction n with
        | zero => exact h
        | succ n ihn => exact (Function.iterate_succ_apply' step n s).symm ▸ (hrest n ihn).2
      exact ⟨0, fun m _ => (hrest m (hranked m)).1⟩
    · obtain ⟨n, hn⟩ := Classical.not_forall.1 hrest
      obtain ⟨hranked, hbusy⟩ := Classical.not_imp.1 hn
      cases hstep k (step^[n] s) hranked with
      | inl hidle => exact absurd hidle hbusy
      | inr hfalls =>
        obtain ⟨j, hj, hlower⟩ := hfalls
        exact .of_iterate n (.of_step (ih j hj hlower))

end Settling
