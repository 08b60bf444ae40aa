import Cdesktop.Program

set_option autoImplicit true

namespace Program
variable {Op Op' : Type} {Val : Op → Type} {Val' : Op' → Type} {ε σ α β : Type}

/-- The run of a program by itself, each operation answered as `exec` says. -/
def eval (exec : (op : Op) → σ → Except ε (Val op) × σ) : Program Op Val ε α → σ → Except ε α × σ
  | .pure a, s => (.ok a, s)
  | .throw e, s => (.error e, s)
  | .call op next, s => (next (exec op s).1).eval exec (exec op s).2

/-- A program over operations that are some of `Op'`. -/
def lift (f : Op → Op') (g : ∀ op, Val' (f op) → Val op) :
    Program Op Val ε α → Program Op' Val' ε α
  | .pure a => .pure a
  | .throw e => .throw e
  | .call op next => .call (f op) fun answer => (next (answer.map (g op))).lift f g

variable {exec : (op : Op) → σ → Except ε (Val op) × σ}

@[simp] theorem eval_throw (e : ε) (s : σ) :
    (Program.throw e : Program Op Val ε α).eval exec s = (.error e, s) := rfl

variable {s s' : σ} {p : Program Op Val ε α}

theorem eval_perform_error {op : Op} (h : exec op s = (.error e, s')) :
    (perform op : Program Op Val ε (Val op)).eval exec s = (.error e, s') := by
  simp only [perform, eval, h]

theorem eval_perform_ok {op : Op} {v : Val op} (h : exec op s = (.ok v, s')) :
    (perform op : Program Op Val ε (Val op)).eval exec s = (.ok v, s') := by
  simp only [perform, eval, h]

theorem eval_bind_error {f : α → Program Op Val ε β}
    (h : p.eval exec s = (.error e, s')) : (p.bind f).eval exec s = (.error e, s') := by
  induction p generalizing s with
  | pure a => cases h
  | throw e =>
    cases h
    rfl
  | call op next ih => exact ih _ h

theorem eval_bind_ok {f : α → Program Op Val ε β}
    (h : p.eval exec s = (.ok a, s')) : (p.bind f).eval exec s = (f a).eval exec s' := by
  induction p generalizing s with
  | pure a =>
    cases h
    rfl
  | throw e => cases h
  | call op next ih => exact ih _ h

theorem eval_attempt {r : Except ε α}
    (h : p.eval exec s = (r, s')) : p.attempt.eval exec s = (.ok r, s') := by
  induction p generalizing s with
  | pure a =>
    cases h
    rfl
  | throw e =>
    cases h
    rfl
  | call op next ih => exact ih _ h

theorem eval_lift {f : Op → Op'} {g : ∀ op, Val' (f op) → Val op}
    {exec' : (op : Op') → σ → Except ε (Val' op) × σ} (p : Program Op Val ε α) (s : σ) :
    (p.lift f g).eval exec' s =
      p.eval (fun op s => ((exec' (f op) s).1.map (g op), (exec' (f op) s).2)) s := by
  induction p generalizing s with
  | pure a => rfl
  | throw e => rfl
  | call op next ih => exact ih _ _

end Program
