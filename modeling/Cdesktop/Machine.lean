import Cdesktop.Program
import Mathlib.Data.List.Basic

set_option autoImplicit true

/-- A shared state, what an operation answers and does there, what the surroundings can do to it at
any moment, and the programs that run on it one at a time. -/
structure System (σ Op : Type) (Val : Op → Type) (ε Act Entry ρ : Type) where
  exec : (op : Op) → Option ε → σ → Except ε (Val op) × σ
  act : Act → σ → σ
  program : Entry → Program Op Val ε ρ

namespace System
variable {σ Op : Type} {Val : Op → Type} {ε Act Entry ρ α β : Type}

/-- One thing that happened, with the state it found. -/
inductive Event (σ Op ε Act Entry ρ : Type) where
  | acted (a : Act) (before : σ)
  | began (entry : Entry) (before : σ)
  | called (op : Op) (refusal : Option ε) (before : σ)
  | returned (entry : Entry) (result : Except ε ρ) (before : σ)
  | crashed (before : σ)

abbrev History (σ Op ε Act Entry ρ : Type) := List (Event σ Op ε Act Entry ρ)

/-- Every event satisfies `P` beside the history that led to it. -/
def All (P : History σ Op ε Act Entry ρ → Event σ Op ε Act Entry ρ → Prop) :
    History σ Op ε Act Entry ρ → Prop
  | [] => True
  | ev :: h => P h ev ∧ All P h

instance All.decidable {P : History σ Op ε Act Entry ρ → Event σ Op ε Act Entry ρ → Prop}
    [∀ h ev, Decidable (P h ev)] : (h : History σ Op ε Act Entry ρ) → Decidable (All P h)
  | [] => inferInstanceAs (Decidable True)
  | _ :: h => @instDecidableAnd _ _ _ (All.decidable h)

structure Waiting (Op : Type) (Val : Op → Type) (ε Entry ρ : Type) where
  entry : Entry
  op : Op
  next : Except ε (Val op) → Program Op Val ε ρ

structure Config (σ Op : Type) (Val : Op → Type) (ε Act Entry ρ : Type) where
  state : σ
  task : Option (Waiting Op Val ε Entry ρ)
  history : History σ Op ε Act Entry ρ

inductive Label (ε Act Entry : Type) where
  | act (a : Act)
  | begin (entry : Entry)
  | call (refusal : Option ε)
  | crash

def start (w : σ) : Config σ Op Val ε Act Entry ρ := ⟨w, none, []⟩

/-- The program goes on, or hands back its outcome. -/
def proceed (entry : Entry) (p : Program Op Val ε ρ) (w : σ) (h : History σ Op ε Act Entry ρ) :
    Config σ Op Val ε Act Entry ρ :=
  match p with
  | .pure a => ⟨w, none, .returned entry (.ok a) w :: h⟩
  | .throw e => ⟨w, none, .returned entry (.error e) w :: h⟩
  | .call op next => ⟨w, some ⟨entry, op, next⟩, h⟩

variable (S : System σ Op Val ε Act Entry ρ)

/-- One step; a label that finds nothing to do changes nothing. -/
def step (c : Config σ Op Val ε Act Entry ρ) :
    Label ε Act Entry → Config σ Op Val ε Act Entry ρ
  | .act a => { c with state := S.act a c.state, history := .acted a c.state :: c.history }
  | .begin entry =>
    match c.task with
    | none => proceed entry (S.program entry) c.state (.began entry c.state :: c.history)
    | some _ => c
  | .call refusal =>
    match c.task with
    | some ⟨entry, op, next⟩ =>
      let (answer, w) := S.exec op refusal c.state
      proceed entry (next answer) w (.called op refusal c.state :: c.history)
    | none => c
  | .crash => ⟨c.state, none, .crashed c.state :: c.history⟩

def run (c : Config σ Op Val ε Act Entry ρ) (labels : List (Label ε Act Entry)) :
    Config σ Op Val ε Act Entry ρ :=
  labels.foldl S.step c

/-- What is known of the history and the state at some point of a program. -/
abbrev Assertion (σ Op ε Act Entry ρ : Type) := History σ Op ε Act Entry ρ → σ → Prop

/-- What runs are held to: the events they may make, what must always hold, and what must hold
while no program runs. -/
structure Contract (σ Op ε Act Entry ρ : Type) where
  ok : History σ Op ε Act Entry ρ → Event σ Op ε Act Entry ρ → Prop
  always : Assertion σ Op ε Act Entry ρ
  idle : Assertion σ Op ε Act Entry ρ

variable (K : Contract σ Op ε Act Entry ρ)

/-- The surroundings cannot falsify `A`. -/
def Stable (A : Assertion σ Op ε Act Entry ρ) : Prop :=
  ∀ h w a, K.ok h (.acted a w) → K.always h w → A h w → A (.acted a w :: h) (S.act a w)

/-- Run from here among its surroundings, the program keeps what must always hold and ends in `Q`. -/
def Safe (Q : Except ε α → Assertion σ Op ε Act Entry ρ) :
    Program Op Val ε α → Assertion σ Op ε Act Entry ρ
  | .pure a, h, w => Q (.ok a) h w
  | .throw e, h, w => Q (.error e) h w
  | .call op next, h, w =>
    ∃ A, S.Stable K A ∧ A h w ∧ ∀ h' w', A h' w' → K.always h' w' → ∀ refusal,
      K.ok h' (.called op refusal w') →
        K.always (.called op refusal w' :: h') (S.exec op refusal w').2 ∧
          Safe Q (next (S.exec op refusal w').1) (.called op refusal w' :: h')
            (S.exec op refusal w').2

/-- `B` of a value, `E` of an error. -/
def Ends (B : α → Assertion σ Op ε Act Entry ρ) (E : ε → Assertion σ Op ε Act Entry ρ) :
    Except ε α → Assertion σ Op ε Act Entry ρ
  | .ok a => B a
  | .error e => E e

/-- From `A`, the program ends in `B` with its value or in `E` with its error. -/
def Triple (A : Assertion σ Op ε Act Entry ρ) (p : Program Op Val ε α)
    (B : α → Assertion σ Op ε Act Entry ρ) (E : ε → Assertion σ Op ε Act Entry ρ) : Prop :=
  ∀ h w, A h w → S.Safe K (Ends B E) p h w

/-- What a single operation does to an assertion. -/
def Effect (A : Assertion σ Op ε Act Entry ρ) (op : Op)
    (B : Val op → Assertion σ Op ε Act Entry ρ) (E : ε → Assertion σ Op ε Act Entry ρ) : Prop :=
  ∀ h w refusal, A h w → K.always h w → K.ok h (.called op refusal w) →
    K.always (.called op refusal w :: h) (S.exec op refusal w).2 ∧
      Ends B E (S.exec op refusal w).1 (.called op refusal w :: h) (S.exec op refusal w).2

variable {S K} {A A' : Assertion σ Op ε Act Entry ρ} {E E' : ε → Assertion σ Op ε Act Entry ρ}

variable {p : Program Op Val ε α} {op : Op} {entry : Entry}
  {P : History σ Op ε Act Entry ρ → Event σ Op ε Act Entry ρ → Prop}
  {c : Config σ Op Val ε Act Entry ρ}

theorem Safe.next {Q : Except ε α → Assertion σ Op ε Act Entry ρ}
    {Q' : Except ε β → Assertion σ Op ε Act Entry ρ} {next : Except ε (Val op) → Program Op Val ε α}
    {next' : Except ε (Val op) → Program Op Val ε β} {h w} (hp : S.Safe K Q (.call op next) h w)
    (hn : ∀ r {h w}, S.Safe K Q (next r) h w → S.Safe K Q' (next' r) h w) :
    S.Safe K Q' (.call op next') h w := by
  obtain ⟨A, hA, h0, hs⟩ := hp
  refine ⟨A, hA, h0, fun h' w' ha hj refusal hok => ?_⟩
  obtain ⟨hj', hp'⟩ := hs h' w' ha hj refusal hok
  exact ⟨hj', hn _ hp'⟩

theorem Safe.mono {Q Q' : Except ε α → Assertion σ Op ε Act Entry ρ}
    (hQ : ∀ r h w, Q r h w → Q' r h w) {h w} (hp : S.Safe K Q p h w) :
    S.Safe K Q' p h w := by
  induction p generalizing h w with
  | pure a => exact hQ _ _ _ hp
  | throw e => exact hQ _ _ _ hp
  | call op next ih => exact hp.next ih

theorem Ends.mono {B B' : α → Assertion σ Op ε Act Entry ρ}
    (hB : ∀ a h w, B a h w → B' a h w) (hE : ∀ e h w, E e h w → E' e h w) {r : Except ε α} {h w}
    (hr : Ends B E r h w) : Ends B' E' r h w := by
  cases r with
  | ok a => exact hB a h w hr
  | error e => exact hE e h w hr

theorem Effect.mono {B B' : Val op → Assertion σ Op ε Act Entry ρ}
    (hop : S.Effect K A op B E) (hB : ∀ v h w, B v h w → B' v h w)
    (hE : ∀ e h w, E e h w → E' e h w) : S.Effect K A op B' E' := by
  intro h w refusal ha hj hok
  obtain ⟨hj', hr⟩ := hop h w refusal ha hj hok
  exact ⟨hj', hr.mono hB hE⟩

theorem Safe.act {Q : Except ε α → Assertion σ Op ε Act Entry ρ}
    {next : Except ε (Val op) → Program Op Val ε α} {h w a} (hp : S.Safe K Q (.call op next) h w)
    (hok : K.ok h (.acted a w)) (hj : K.always h w) :
    S.Safe K Q (.call op next) (.acted a w :: h) (S.act a w) := by
  obtain ⟨A, hA, h0, hs⟩ := hp
  exact ⟨A, hA, hA h w a hok hj h0, hs⟩

theorem Safe.bind {Q : Except ε β → Assertion σ Op ε Act Entry ρ} {f : α → Program Op Val ε β} {h w}
    (hp : S.Safe K (Ends (fun a => S.Safe K Q (f a)) fun e => Q (.error e)) p h w) :
    S.Safe K Q (p.bind f) h w := by
  induction p generalizing h w with
  | pure a => exact hp
  | throw e => exact hp
  | call op next ih => exact hp.next ih

theorem Safe.attempt {Q : Except ε (Except ε α) → Assertion σ Op ε Act Entry ρ}
    {h w} (hp : S.Safe K (fun r => Q (.ok r)) p h w) :
    S.Safe K Q p.attempt h w := by
  induction p generalizing h w with
  | pure a => exact hp
  | throw e => exact hp
  | call op next ih => exact hp.next ih

namespace Triple
variable {B : α → Assertion σ Op ε Act Entry ρ} {C : β → Assertion σ Op ε Act Entry ρ}

theorem pure {a : α} (h : ∀ h w, A h w → B a h w) : S.Triple K A (.pure a) B E := h

theorem throw {e : ε} (h : ∀ h w, A h w → E e h w) :
    S.Triple K A (.throw e : Program Op Val ε α) B E := h

theorem call {next : Except ε (Val op) → Program Op Val ε α}
    {D : Except ε (Val op) → Assertion σ Op ε Act Entry ρ} (hA : S.Stable K A)
    (hop : S.Effect K A op (fun v => D (.ok v)) (fun e => D (.error e)))
    (hn : ∀ answer, S.Triple K (D answer) (next answer) B E) :
    S.Triple K A (.call op next) B E := by
  intro h w h0
  refine ⟨A, hA, h0, fun h' w' ha hj refusal hok => ?_⟩
  obtain ⟨hj', hd⟩ := hop h' w' refusal ha hj hok
  refine ⟨hj', ?_⟩
  cases hr : (S.exec op refusal w').1 with
  | ok v => rw [hr] at hd; exact hn _ _ _ hd
  | error e => rw [hr] at hd; exact hn _ _ _ hd

theorem perform {B : Val op → Assertion σ Op ε Act Entry ρ} (hA : S.Stable K A)
    (hop : S.Effect K A op B E) : S.Triple K A (Program.perform op) B E := by
  apply call (D := Ends B E) hA hop
  intro answer
  cases answer <;> exact fun _ _ hd => hd

theorem bind {f : α → Program Op Val ε β}
    (hp : S.Triple K A p B E) (hf : ∀ a, S.Triple K (B a) (f a) C E) :
    S.Triple K A (p.bind f) C E := by
  intro h w h0
  refine Safe.bind (Safe.mono ?_ (hp h w h0))
  rintro (e | a) h' w' hr
  · exact hr
  · exact hf a h' w' hr

theorem perform_bind {D : Val op → Assertion σ Op ε Act Entry ρ}
    {f : Val op → Program Op Val ε β} (hA : S.Stable K A) (hop : S.Effect K A op D E)
    (hf : ∀ v, S.Triple K (D v) (f v) C E) :
    S.Triple K A ((Program.perform op).bind f) C E :=
  (perform hA hop).bind hf

theorem attempt {C : Except ε α → Assertion σ Op ε Act Entry ρ}
    (hp : S.Triple K A p (fun a => C (.ok a)) (fun e => C (.error e))) :
    S.Triple K A p.attempt C E := by
  intro h w h0
  refine Safe.attempt (Safe.mono ?_ (hp h w h0))
  rintro (e | a) h' w' hr <;> exact hr

theorem consequence {B' : α → Assertion σ Op ε Act Entry ρ}
    (hp : S.Triple K A' p B' E') (hA : ∀ h w, A h w → A' h w)
    (hB : ∀ a h w, B' a h w → B a h w) (hE : ∀ e h w, E' e h w → E e h w) :
    S.Triple K A p B E := by
  intro h w h0
  exact Safe.mono (fun _ _ _ hr => hr.mono hB hE) (hp h w (hA h w h0))

theorem pre (hp : S.Triple K A' p B E) (hA : ∀ h w, A h w → A' h w) :
    S.Triple K A p B E :=
  fun h w h0 => hp h w (hA h w h0)

theorem forEach {f : β → Program Op Val ε Unit} (l : List β)
    (hf : ∀ b, S.Triple K A (f b) (fun _ => A) E) :
    S.Triple K A (Program.forEach f l) (fun _ => A) E := by
  induction l with
  | nil => exact pure fun _ _ h0 => h0
  | cons b l ih => exact (hf b).bind fun _ => ih

theorem of_calls {P : Op → Prop} (hc : p.Calls P) (hA : S.Stable K A)
    (hop : ∀ op, P op → S.Effect K A op (fun _ => A) (fun _ => A)) :
    S.Triple K A p (fun _ => A) (fun _ => A) := by
  induction p with
  | pure a => exact fun h w h0 => h0
  | throw e => exact fun h w h0 => h0
  | call op next ih => exact call (D := fun _ => A) hA (hop op hc.1) fun answer => ih _ (hc.2 answer)

end Triple

/-- What a program owes when it hands back its outcome. -/
def Returns (K : Contract σ Op ε Act Entry ρ) (entry : Entry) :
    Except ε ρ → Assertion σ Op ε Act Entry ρ :=
  fun r h w => K.always h w → K.ok h (.returned entry r w) →
    K.always (.returned entry r w :: h) w ∧ K.idle (.returned entry r w :: h) w

/-- What has to be shown of a system for its runs to keep a contract. -/
structure Keeps (S : System σ Op Val ε Act Entry ρ) (K : Contract σ Op ε Act Entry ρ) : Prop where
  always_act : S.Stable K K.always
  idle_act : S.Stable K K.idle
  crash : ∀ h w, K.ok h (.crashed w) → K.always h w →
    K.always (.crashed w :: h) w ∧ K.idle (.crashed w :: h) w
  began : ∀ entry h w, K.ok h (.began entry w) → K.always h w → K.idle h w →
    K.always (.began entry w :: h) w ∧
      S.Safe K (Returns K entry) (S.program entry) (.began entry w :: h) w

theorem Triple.returns {p : Program Op Val ε ρ}
    {B : ρ → Assertion σ Op ε Act Entry ρ} (hp : S.Triple K A p B E)
    (hB : ∀ a h w, B a h w → K.always h w → K.ok h (.returned entry (.ok a) w) →
      K.always (.returned entry (.ok a) w :: h) w ∧ K.idle (.returned entry (.ok a) w :: h) w)
    (hE : ∀ e h w, E e h w → K.always h w → K.ok h (.returned entry (.error e) w) →
      K.always (.returned entry (.error e) w :: h) w ∧
        K.idle (.returned entry (.error e) w :: h) w) {h w} (h0 : A h w) :
    S.Safe K (Returns K entry) p h w := by
  refine Safe.mono ?_ (hp h w h0)
  rintro (e | a) h' w' hr
  · exact hE e h' w' hr
  · exact hB a h' w' hr

/-- A contract from what each program starts with and what it ends in. -/
theorem Keeps.of_triples {C : Entry → Assertion σ Op ε Act Entry ρ}
    {D : Entry → Except ε ρ → Assertion σ Op ε Act Entry ρ} (hact : S.Stable K K.always)
    (hidle : S.Stable K K.idle)
    (hcrash : ∀ h w, K.ok h (.crashed w) → K.always h w →
      K.always (.crashed w :: h) w ∧ K.idle (.crashed w :: h) w)
    (hbegan : ∀ entry h w, K.ok h (.began entry w) → K.always h w → K.idle h w →
      K.always (.began entry w :: h) w ∧ C entry (.began entry w :: h) w)
    (hprogram : ∀ entry, S.Triple K (C entry) (S.program entry) (fun a => D entry (.ok a))
      (fun e => D entry (.error e)))
    (hreturned : ∀ entry r h w, D entry r h w → K.always h w → K.ok h (.returned entry r w) →
      K.always (.returned entry r w :: h) w ∧ K.idle (.returned entry r w :: h) w) :
    Keeps S K where
  always_act := hact
  idle_act := hidle
  crash := hcrash
  began entry h w hok hj hi := by
    obtain ⟨hj', hc⟩ := hbegan entry h w hok hj hi
    exact ⟨hj', (hprogram entry).returns (fun a h w => hreturned entry (.ok a) h w)
      (fun e h w => hreturned entry (.error e) h w) hc⟩

/-- The contract at a configuration. -/
def Kept (S : System σ Op Val ε Act Entry ρ) (K : Contract σ Op ε Act Entry ρ)
    (c : Config σ Op Val ε Act Entry ρ) : Prop :=
  K.always c.history c.state ∧
    match c.task with
    | none => K.idle c.history c.state
    | some ⟨entry, op, next⟩ =>
      S.Safe K (Returns K entry) (.call op next) c.history c.state

theorem Kept.proceed {p : Program Op Val ε ρ} {h w} (hj : K.always h w)
    (hp : S.Safe K (Returns K entry) p h w) (hall : All K.ok (System.proceed entry p w h).history) :
    Kept S K (System.proceed entry p w h) := by
  cases p with
  | pure a => exact hp hj hall.1
  | throw e => exact hp hj hall.1
  | call op next => exact ⟨hj, hp⟩

theorem All.of_forall (hP : ∀ h ev, P h ev) (h : History σ Op ε Act Entry ρ) : All P h := by
  induction h with
  | nil => trivial
  | cons ev h ih => exact ⟨hP h ev, ih⟩

theorem All.tail {ev h} (hall : All P (ev :: h)) : All P h := hall.2

theorem proceed_history
    {p : Program Op Val ε ρ} {h w} (hall : All P (proceed entry p w h).history) :
    All P h := by
  cases p with
  | pure => exact hall.tail
  | throw => exact hall.tail
  | call => exact hall

/-- A step only adds events. -/
theorem step_history {l : Label ε Act Entry} (hall : All P (S.step c l).history) :
    All P c.history := by
  cases l with
  | act a => exact hall.tail
  | begin entry =>
    simp only [step] at hall
    split at hall
    · exact (proceed_history hall).tail
    · exact hall
  | call refusal =>
    simp only [step] at hall
    split at hall
    · exact (proceed_history hall).tail
    · exact hall
  | crash => exact hall.tail

theorem run_history {labels : List (Label ε Act Entry)}
    (hall : All P (S.run c labels).history) : All P c.history := by
  induction labels generalizing c with
  | nil => exact hall
  | cons l labels ih => exact step_history (ih hall)

theorem Keeps.step (hk : Keeps S K) (hc : Kept S K c)
    (l : Label ε Act Entry) (hall : All K.ok (S.step c l).history) : Kept S K (S.step c l) := by
  obtain ⟨w, task, h⟩ := c
  obtain ⟨hj, ht⟩ := hc
  cases l with
  | act a =>
    refine ⟨hk.always_act h w a hall.1 hj hj, ?_⟩
    match task with
    | none => exact hk.idle_act h w a hall.1 hj ht
    | some ⟨_, _, _⟩ => exact Safe.act ht hall.1 hj
  | begin entry =>
    match task with
    | none =>
      obtain ⟨hj', hp⟩ := hk.began entry h w (proceed_history hall).1 hj ht
      exact Kept.proceed hj' hp hall
    | some _ => exact ⟨hj, ht⟩
  | call refusal =>
    match task with
    | none => exact ⟨hj, ht⟩
    | some ⟨entry, op, next⟩ =>
      obtain ⟨A, -, h0, hs⟩ := ht
      obtain ⟨hj', hp⟩ := hs h w h0 hj refusal (proceed_history hall).1
      exact Kept.proceed hj' hp hall
  | crash => exact hk.crash h w hall.1 hj

theorem Keeps.run (hk : Keeps S K) (hc : Kept S K c)
    (labels : List (Label ε Act Entry)) (hall : All K.ok (S.run c labels).history) :
    Kept S K (S.run c labels) := by
  induction labels generalizing c with
  | nil => exact hc
  | cons l labels ih => exact ih (hk.step hc l (run_history hall)) hall

end System
