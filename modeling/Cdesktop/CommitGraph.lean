import Mathlib.Data.List.Basic

/-! Commits, each with those that it was made on, and what can be reached from one. -/

namespace CommitGraph
set_option autoImplicit true

/-- A commit, with the commit whose changes a squash merge put into its tree. -/
structure Commit where
  parents : List Nat
  squashed : Option Nat
deriving DecidableEq

/-- The commits in the order in which they were made. They are never removed. -/
abbrev Graph := List Commit

/-- The first commit is the second or one of its ancestors. -/
inductive Reach (g : Graph) (c : Nat) : Nat → Prop where
  | refl : Reach g c c
  | parent : g[d]? = some commit → p ∈ commit.parents → Reach g c p → Reach g c d

/-- Whether the first commit is reached from the second in so many steps. -/
def reaches (g : Graph) (c : Nat) : Nat → Nat → Bool
  | 0, d => c = d
  | n + 1, d =>
    c = d || match g[d]? with
      | some commit => commit.parents.any (reaches g c n)
      | none => false

/-- How many commits are reached from the second commit and not from the first. -/
def behind (g : Graph) (c d : Nat) : Nat :=
  ((List.range g.length).filter fun e => reaches g e g.length d && !reaches g e g.length c).length

def Absorbed (g : Graph) (t d : Nat) : Prop :=
  ∃ s commit, Reach g s d ∧ g[s]? = some commit ∧ commit.squashed = some t

/-- The commit is reached, or a squash merge of a commit that it is reached from. -/
def Contained (g : Graph) (c d : Nat) : Prop :=
  Reach g c d ∨ ∃ t, Reach g c t ∧ Absorbed g t d

theorem Reach.trans (h : Reach g c d) (h' : Reach g d e) : Reach g c e := by
  induction h' with
  | refl => exact h
  | parent hcommit hp _ ih => exact .parent hcommit hp ih

theorem Reach.append (h : Reach g c d) (more : Graph) : Reach (g ++ more) c d := by
  induction h with
  | refl => exact .refl
  | parent hcommit hp _ ih =>
    apply Reach.parent _ hp ih
    obtain ⟨hlt, heq⟩ := List.getElem?_eq_some_iff.mp hcommit
    rw [List.getElem?_append_left hlt]
    exact hcommit

theorem Reach.le (h : Reach g c d)
    (hordered : ∀ d < g.length, ∀ commit ∈ g[d]?, ∀ p ∈ commit.parents, p < d) : c ≤ d := by
  induction h with
  | refl => exact Nat.le_refl c
  | parent hcommit hp _ ih =>
    obtain ⟨hlt, -⟩ := List.getElem?_eq_some_iff.mp hcommit
    exact Nat.le_of_lt (Nat.lt_of_le_of_lt ih (hordered _ hlt _ hcommit _ hp))

theorem getElem?_concat_self (g : Graph) (commit : Commit) :
    (g ++ [commit])[g.length]? = some commit := by
  rw [List.getElem?_append_right (Nat.le_refl _), Nat.sub_self]
  rfl

theorem Reach.new (h : Reach g c p) (hp : p ∈ commit.parents) :
    Reach (g ++ [commit]) c g.length :=
  .parent (getElem?_concat_self g commit) hp (h.append _)

theorem Absorbed.append (h : Absorbed g t d) (more : Graph) : Absorbed (g ++ more) t d := by
  obtain ⟨s, commit, hreach, hcommit, hsquashed⟩ := h
  refine ⟨s, commit, hreach.append more, ?_, hsquashed⟩
  obtain ⟨hlt, heq⟩ := List.getElem?_eq_some_iff.mp hcommit
  rw [List.getElem?_append_left hlt]
  exact hcommit

theorem Absorbed.trans (h : Absorbed g t d) (h' : Reach g d e) : Absorbed g t e := by
  obtain ⟨s, commit, hreach, hcommit⟩ := h
  exact ⟨s, commit, hreach.trans h', hcommit⟩

theorem absorbed_new (g : Graph) (h : commit.squashed = some t) :
    Absorbed (g ++ [commit]) t g.length :=
  ⟨g.length, commit, .refl, getElem?_concat_self g commit, h⟩

theorem Contained.append (h : Contained g c d) (more : Graph) : Contained (g ++ more) c d := by
  cases h with
  | inl hreach => exact .inl (hreach.append more)
  | inr habsorbed =>
    obtain ⟨t, hreach, hat⟩ := habsorbed
    exact .inr ⟨t, hreach.append more, hat.append more⟩

theorem Contained.trans (h : Contained g c d) (h' : Reach g d e) : Contained g c e := by
  cases h with
  | inl hreach => exact .inl (hreach.trans h')
  | inr habsorbed =>
    obtain ⟨t, hreach, hat⟩ := habsorbed
    exact .inr ⟨t, hreach, hat.trans h'⟩

theorem Contained.below (h : Contained g c d) (h' : Reach g b c) : Contained g b d := by
  cases h with
  | inl hreach => exact .inl (h'.trans hreach)
  | inr habsorbed =>
    obtain ⟨t, hreach, hat⟩ := habsorbed
    exact .inr ⟨t, h'.trans hreach, hat⟩

end CommitGraph
