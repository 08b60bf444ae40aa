import Mathlib.Data.List.Basic
import Mathlib.Logic.Function.Basic

/-! Programs of several authors that take indices from one counter and push, later, patches of one
list at them. -/

namespace SharedIndex
set_option autoImplicit true

/-- An index that the counter has given, and which of all that it has given this is. -/
structure Ticket where
  index : Nat
  serial : Nat

inductive Patch where
  | add (ticket : Ticket)
  | replace (ticket : Ticket)
  | remove

/-- What an author does with a message. The patches are kept until the program is done. -/
inductive Prog (α : Type) where
  | done (result : α)
  | add (k : Ticket → Prog α)
  | replace (ticket : Ticket) (k : Prog α)
  | current (k : Nat → Prog α)
  /-- The counter starts again from zero, with the removal of so many entries. -/
  | restart (n : Nat) (k : Prog α)

namespace Prog

def bind : Prog α → (α → Prog β) → Prog β
  | .done a, f => f a
  | .add k, f => .add fun ticket => (k ticket).bind f
  | .replace ticket k, f => .replace ticket (k.bind f)
  | .current k, f => .current fun n => (k n).bind f
  | .restart n k, f => .restart n (k.bind f)

instance : Monad Prog where
  pure := .done
  bind := .bind

/-- The program neither reads nor resets the counter, has each ticket that it uses from the list
or has taken it, and its result satisfies `Q` with the tickets it then has. -/
def Plain (Q : α → List Ticket → Prop) : List Ticket → Prog α → Prop
  | tickets, .done a => Q a tickets
  | tickets, .add k => ∀ ticket, (k ticket).Plain Q (ticket :: tickets)
  | tickets, .replace ticket k => ticket ∈ tickets ∧ k.Plain Q tickets
  | _, .current _ => False
  | _, .restart _ _ => False

/-- The same, where at the start the program may read the counter and then reset it. -/
def Sound (Q : α → List Ticket → Prop) (tickets : List Ticket) (p : Prog α) : Prop :=
  p.Plain Q tickets ∨ ∃ k, p = .current k ∧
    ∀ n, (k n).Plain Q tickets ∨ ∃ p', k n = .restart n p' ∧ p'.Plain Q tickets

theorem plain_bind {p : Prog α} {f : α → Prog β} :
    (p >>= f).Plain Q tickets ↔ p.Plain (fun a tickets => (f a).Plain Q tickets) tickets := by
  induction p generalizing tickets with
  | done a => exact Iff.rfl
  | add k ih => exact forall_congr' fun ticket => ih ticket
  | replace ticket k ih => exact and_congr_right' ih
  | current k => exact Iff.rfl
  | restart n k => exact Iff.rfl

theorem Plain.imp {p : Prog α} (h : p.Plain Q tickets)
    (hQ : ∀ a held, tickets ⊆ held → Q a held → Q' a held) : p.Plain Q' tickets := by
  induction p generalizing tickets with
  | done a => exact hQ a tickets (List.Subset.refl _) h
  | add k ih =>
    intro ticket
    apply ih ticket (h ticket)
    intro a held hheld
    exact hQ a held fun t ht => hheld (List.mem_cons_of_mem _ ht)
  | replace ticket k ih => exact ⟨h.1, ih h.2 hQ⟩
  | current k => exact h.elim
  | restart n k => exact h.elim

theorem Sound.imp {p : Prog α} (h : p.Sound Q tickets)
    (hQ : ∀ a held, tickets ⊆ held → Q a held → Q' a held) : p.Sound Q' tickets := by
  cases h with
  | inl hplain => exact .inl (hplain.imp hQ)
  | inr hcurrent =>
    obtain ⟨k, rfl, hk⟩ := hcurrent
    apply Or.inr
    apply Exists.intro k
    apply And.intro rfl
    intro n
    cases hk n with
    | inl hplain => exact .inl (hplain.imp hQ)
    | inr hrestart =>
      obtain ⟨p', hp', hplain⟩ := hrestart
      exact .inr ⟨p', hp', hplain.imp hQ⟩

theorem Sound.bind {p : Prog α} {f : α → Prog β}
    (h : p.Sound (fun a tickets => (f a).Plain Q tickets) tickets) :
    (p >>= f).Sound Q tickets := by
  cases h with
  | inl hplain => exact .inl (plain_bind.mpr hplain)
  | inr hcurrent =>
    obtain ⟨k, rfl, hk⟩ := hcurrent
    apply Or.inr
    apply Exists.intro fun n => (k n).bind f
    apply And.intro rfl
    intro n
    cases hk n with
    | inl hplain => exact .inl (plain_bind.mpr hplain)
    | inr hrestart =>
      obtain ⟨p', hp', hplain⟩ := hrestart
      apply Or.inr
      apply Exists.intro (p'.bind f)
      apply And.intro
      · dsimp only
        rw [hp']
        rfl
      · exact plain_bind.mpr hplain

end Prog

/-- `provider.next()`, and a patch that adds an entry at the index. -/
def addEntry : Prog Ticket := .add .done

def replaceEntry (ticket : Ticket) : Prog Unit := .replace ticket (.done ())

def current : Prog Nat := .current .done

/-- A patch that removes the first entry, `n` times, and `provider.reset()`. -/
def removeAll (n : Nat) : Prog Unit := .restart n (.done ())

open Prog

end SharedIndex
