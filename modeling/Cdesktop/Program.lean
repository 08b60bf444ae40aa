import Mathlib.Logic.Basic

set_option autoImplicit true

/-- A program that calls operations, each answered or refused with an error, and may fail itself. -/
inductive Program (Op : Type) (Val : Op → Type) (ε α : Type) where
  | pure (a : α)
  | throw (e : ε)
  | call (op : Op) (next : Except ε (Val op) → Program Op Val ε α)

namespace Program
variable {Op : Type} {Val : Op → Type} {ε α β : Type}

def bind (p : Program Op Val ε α) (f : α → Program Op Val ε β) : Program Op Val ε β :=
  match p with
  | .pure a => f a
  | .throw e => .throw e
  | .call op next => .call op fun answer => (next answer).bind f

instance : Monad (Program Op Val ε) where
  pure := .pure
  bind := .bind

/-- Calls one operation and fails with the error it is refused with. -/
def perform (op : Op) : Program Op Val ε (Val op) :=
  .call op fun
    | .ok v => .pure v
    | .error e => .throw e

/-- Hands the outcome of `p` to its caller, success or failure. -/
def attempt : Program Op Val ε α → Program Op Val ε (Except ε α)
  | .pure a => .pure (.ok a)
  | .throw e => .pure (.error e)
  | .call op next => .call op fun answer => (next answer).attempt

/-- Fails with `e` when there is no value. -/
def orThrow (e : ε) : Option α → Program Op Val ε α
  | some a => .pure a
  | none => .throw e

/-- Runs `f` on each element in turn. -/
def forEach (f : α → Program Op Val ε Unit) : List α → Program Op Val ε Unit
  | [] => .pure ()
  | a :: l => (f a).bind fun _ => forEach f l

/-- Every operation `p` can come to call satisfies `P`. -/
def Calls (P : Op → Prop) : Program Op Val ε α → Prop
  | .pure _ => True
  | .throw _ => True
  | .call op next => P op ∧ ∀ answer, (next answer).Calls P

@[simp] theorem bind_def (p : Program Op Val ε α) (f : α → Program Op Val ε β) :
    p >>= f = p.bind f := rfl

variable {P : Op → Prop} {p : Program Op Val ε α}

theorem Calls.perform {op : Op} (h : P op) :
    Calls P (perform op : Program Op Val ε (Val op)) :=
  ⟨h, fun
    | .ok _ => trivial
    | .error _ => trivial⟩

theorem Calls.bind {f : α → Program Op Val ε β}
    (hp : p.Calls P) (hf : ∀ a, (f a).Calls P) : (p.bind f).Calls P := by
  induction p with
  | pure a => exact hf a
  | throw => trivial
  | call op next ih => exact ⟨hp.1, fun answer => ih answer (hp.2 answer)⟩

theorem Calls.attempt (hp : p.Calls P) :
    p.attempt.Calls P := by
  induction p with
  | pure => trivial
  | throw => trivial
  | call op next ih => exact ⟨hp.1, fun answer => ih answer (hp.2 answer)⟩

theorem Calls.orThrow (e : ε) (o : Option α) :
    (Program.orThrow e o : Program Op Val ε α).Calls P := by
  cases o <;> trivial

theorem Calls.forEach {f : α → Program Op Val ε Unit} (l : List α)
    (hf : ∀ a ∈ l, (f a).Calls P) : (forEach f l).Calls P := by
  induction l with
  | nil => trivial
  | cons a l ih =>
    exact (hf a List.mem_cons_self).bind fun _ => ih fun b hb => hf b (List.mem_cons_of_mem _ hb)

theorem Calls.all (p : Program Op Val ε α) : p.Calls fun _ => True := by
  induction p with
  | pure => trivial
  | throw => trivial
  | call op next ih => exact ⟨trivial, ih⟩

theorem Calls.mono {P' : Op → Prop} (h : ∀ op, P op → P' op) (hp : p.Calls P) : p.Calls P' := by
  induction p with
  | pure => trivial
  | throw => trivial
  | call op next ih => exact ⟨h op hp.1, fun answer => ih answer (hp.2 answer)⟩

end Program
