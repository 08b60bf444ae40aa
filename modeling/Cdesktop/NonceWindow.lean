import Mathlib.Logic.Function.Basic

/-! Keys that are remembered for a time, and how long this keeps one from being used again. -/

namespace NonceWindow
set_option autoImplicit true
variable {κ : Type}

/-- The keys that are remembered, and since when. -/
abbrev Seen (κ : Type) := κ → Option Nat

/-- Only what was seen in the last `ttl` stays. -/
def retain (ttl now : Nat) (seen : Seen κ) : Seen κ :=
  fun k => (seen k).filter fun seenAt => now - seenAt ≤ ttl

def insert [DecidableEq κ] (k : κ) (now : Nat) (seen : Seen κ) : Seen κ :=
  Function.update seen k (some now)

/-- The key, which was used after `low`, is still remembered or its time has passed. -/
def Covers (ttl : Nat) (seen : Seen κ) (now : Nat) (k : κ) (low : Int) : Prop :=
  (∃ seenAt : Nat, seen k = some seenAt ∧ low ≤ seenAt) ∨ low + ttl < now

theorem Covers.retain {seen : Seen κ} (h : Covers ttl seen now k low) (hle : at_ ≤ now')
    (hnow : now ≤ now') :
    Covers ttl (NonceWindow.retain ttl at_ seen) now' k low := by
  rcases h with ⟨seenAt, hseen, hlow⟩ | hpast
  · by_cases hold : at_ - seenAt ≤ ttl
    · left
      refine ⟨seenAt, ?_, hlow⟩
      rw [NonceWindow.retain, hseen, Option.filter_some, if_pos (decide_eq_true hold)]
    · right
      omega
  · right
    omega

theorem Covers.later {seen : Seen κ} (h : Covers ttl seen now k low) (hnow : now ≤ now') :
    Covers ttl seen now' k low := by
  rcases h with hseen | hpast
  · exact Or.inl hseen
  · right
    omega

theorem Covers.past {seen : Seen κ} (h : Covers ttl seen now k low) (hnone : seen k = none) :
    low + ttl < now := by
  rcases h with ⟨seenAt, hseen, -⟩ | hpast
  · rw [hnone] at hseen
    cases hseen
  · exact hpast

variable [DecidableEq κ]

theorem Covers.insert {seen : Seen κ} (h : Covers ttl seen now k low) (hnone : seen k' = none)
    (hnow : now ≤ now') : Covers ttl (NonceWindow.insert k' at_ seen) now' k low := by
  by_cases hk : k = k'
  · right
    have hpast := h.past (by rw [hk]; exact hnone)
    omega
  · rcases h with ⟨seenAt, hseen, hle⟩ | hpast
    · left
      refine ⟨seenAt, ?_, hle⟩
      rw [NonceWindow.insert, Function.update_of_ne hk]
      exact hseen
    · right
      omega

theorem Covers.of_insert {low : Int} (seen : Seen κ) (hlow : low ≤ (at_ : Nat)) :
    Covers ttl (NonceWindow.insert k at_ seen) now k low := by
  left
  refine ⟨at_, ?_, hlow⟩
  rw [NonceWindow.insert, Function.update_self]

end NonceWindow
