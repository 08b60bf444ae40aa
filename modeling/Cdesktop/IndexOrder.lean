import Mathlib.Data.Fintype.Basic
import Cdesktop.Run
import Cdesktop.SharedIndex

/-! Authors that share the counter and the list, with their steps in any order. -/

namespace SharedIndex
set_option autoImplicit true

/-- The author of an entry, where it was none before, and its ticket's serial number. -/
abbrev Entry (α : Type) := Option α × Nat

/-- What a patch does to the entries. A patch that does not apply changes nothing. -/
def Patch.apply (author : α) (entries : List (Entry α)) : Patch → List (Entry α)
  | .add ticket => entries.insertIdx ticket.index (some author, ticket.serial)
  | .replace _ => entries
  | .remove => entries.tail

structure Push (α : Type) where
  author : α
  patch : Patch
  entries : List (Entry α)

/-- An add is at the number of entries. A replace is of the entry that its author added when it
took the index. -/
def Push.Right (p : Push α) : Prop :=
  match p.patch with
  | .add ticket => ticket.index = p.entries.length
  | .replace ticket => p.entries[ticket.index]? = some (some p.author, ticket.serial)
  | .remove => p.entries ≠ []

instance Push.Right.decidable [DecidableEq α] (p : Push α) : Decidable p.Right :=
  match p with
  | ⟨_, .add ticket, entries⟩ => inferInstanceAs (Decidable (ticket.index = entries.length))
  | ⟨author, .replace ticket, entries⟩ =>
    inferInstanceAs (Decidable (entries[ticket.index]? = some (some author, ticket.serial)))
  | ⟨_, .remove, entries⟩ => inferInstanceAs (Decidable (entries ≠ []))

structure Task (σ : Type) where
  prog : Prog σ
  patches : List Patch

structure World (α σ : Type) where
  counter : Nat
  serial : Nat
  /-- The first serial number after the last reset. -/
  epoch : Nat
  entries : List (Entry α)
  tasks : α → Task σ
  pushes : List (Push α)

inductive Event (α μ : Type) where
  | load (author : α) (msg : μ)
  | step (author : α)

section
variable [DecidableEq α]

def World.set (author : α) (task : Task σ) (w : World α σ) : World α σ :=
  { w with tasks := Function.update w.tasks author task }

def World.take (author : α) (k : Ticket → Prog σ) (patches : List Patch) (w : World α σ) :
    World α σ :=
  let ticket : Ticket := ⟨w.counter, w.serial⟩
  World.set author ⟨k ticket, patches ++ [.add ticket]⟩
    { w with counter := w.counter + 1, serial := w.serial + 1 }

def World.restart (author : α) (n : Nat) (p : Prog σ) (patches : List Patch) (w : World α σ) :
    World α σ :=
  World.set author ⟨p, patches ++ List.replicate n .remove⟩
    { w with counter := 0, epoch := w.serial }

def World.push (author : α) (result : σ) (patch : Patch) (patches : List Patch)
    (w : World α σ) : World α σ :=
  World.set author ⟨.done result, patches⟩
    { w with
      entries := patch.apply author w.entries
      pushes := w.pushes ++ [⟨author, patch, w.entries⟩] }

/-- A message is taken up when the patches of the one before are pushed. -/
def World.exec (handle : α → σ → μ → Prog σ) (w : World α σ) : Event α μ → World α σ
  | .load author msg =>
    match w.tasks author with
    | ⟨.done s, []⟩ => w.set author ⟨handle author s msg, []⟩
    | _ => w
  | .step author =>
    match w.tasks author with
    | ⟨.done _, []⟩ => w
    | ⟨.done s, patch :: patches⟩ => w.push author s patch patches
    | ⟨.add k, patches⟩ => w.take author k patches
    | ⟨.replace ticket p, patches⟩ => w.set author ⟨p, patches ++ [.replace ticket]⟩
    | ⟨.current k, patches⟩ => w.set author ⟨k w.counter, patches⟩
    | ⟨.restart n p, patches⟩ => w.restart author n p patches

/-- The tasks at the start, with so many entries and a counter that was set to `counter`. -/
def World.start (s : σ) (n counter : Nat) : World α σ :=
  { counter, serial := 0, epoch := 0
    entries := (List.range n).map fun i => (none, i)
    tasks := fun _ => ⟨.done s, []⟩
    pushes := [] }

end

/-- The patch may come after an add with the ticket. -/
def Patch.After (ticket : Ticket) : Patch → Prop
  | .add later => ticket.index ≤ later.index
  | .replace _ => True
  | .remove => False

instance Patch.After.decidable (ticket : Ticket) : ∀ patch, Decidable (Patch.After ticket patch)
  | .add later => inferInstanceAs (Decidable (ticket.index ≤ later.index))
  | .replace _ => inferInstanceAs (Decidable True)
  | .remove => inferInstanceAs (Decidable False)

/-- An add is pushed when no other author keeps one at a smaller index, or a removal. A replace is
pushed at an index taken since the last reset. The counter is reset when it is what the author
read, and no other author keeps a patch. -/
def OrderlyStep (w : World α σ) (author : α) : Task σ → Prop
  | ⟨.done _, .add ticket :: _⟩ =>
    ∀ other, other ≠ author → ∀ patch ∈ (w.tasks other).patches, patch.After ticket
  | ⟨.done _, .replace ticket :: _⟩ => w.epoch ≤ ticket.serial
  | ⟨.restart n _, _⟩ =>
    w.counter = n ∧ ∀ other, other ≠ author → (w.tasks other).patches = []
  | _ => True

def Orderly (w : World α σ) : Event α μ → Prop
  | .load _ _ => True
  | .step author => OrderlyStep w author (w.tasks author)

instance OrderlyStep.decidable [DecidableEq α] [Fintype α] (w : World α σ) (author : α) :
    ∀ task, Decidable (OrderlyStep w author task)
  | ⟨.done _, .add ticket :: _⟩ => inferInstanceAs (Decidable (∀ other, other ≠ author →
      ∀ patch ∈ (w.tasks other).patches, patch.After ticket))
  | ⟨.done _, .replace ticket :: _⟩ => inferInstanceAs (Decidable (w.epoch ≤ ticket.serial))
  | ⟨.restart n _, _⟩ => inferInstanceAs (Decidable
      (w.counter = n ∧ ∀ other, other ≠ author → (w.tasks other).patches = []))
  | ⟨.done _, []⟩ => inferInstanceAs (Decidable True)
  | ⟨.done _, .remove :: _⟩ => inferInstanceAs (Decidable True)
  | ⟨.add _, _⟩ => inferInstanceAs (Decidable True)
  | ⟨.replace _ _, _⟩ => inferInstanceAs (Decidable True)
  | ⟨.current _, _⟩ => inferInstanceAs (Decidable True)

instance Orderly.decidable [DecidableEq α] [Fintype α] (w : World α σ) :
    ∀ event : Event α μ, Decidable (Orderly w event)
  | .load _ _ => inferInstanceAs (Decidable True)
  | .step author => inferInstanceAs (Decidable (OrderlyStep w author (w.tasks author)))

def World.Clean (w : World α σ) : Prop := ∀ a, .remove ∉ (w.tasks a).patches

/-- The adds that are kept are at the indices from `base` up to the counter, once each, and each
author keeps them in order. -/
structure World.Queued (w : World α σ) (base : Nat) : Prop where
  le : base ≤ w.counter
  bounds : ∀ a ticket, .add ticket ∈ (w.tasks a).patches →
    base ≤ ticket.index ∧ ticket.index < w.counter
  covered : ∀ i, base ≤ i → i < w.counter → ∃ a ticket,
    .add ticket ∈ (w.tasks a).patches ∧ ticket.index = i
  unique : ∀ a b ticket other, .add ticket ∈ (w.tasks a).patches →
    .add other ∈ (w.tasks b).patches → ticket.index = other.index → a = b
  sorted : ∀ a, (w.tasks a).patches.Pairwise fun p q =>
    ∀ ticket later, p = .add ticket → q = .add later → ticket.index < later.index

/-- Adds start after the entries, or after the removal of all of them, which one author keeps
before its other patches. -/
inductive World.Removing (w : World α σ) : Nat → Prop where
  | clean (h : w.Clean) : w.Removing w.entries.length
  | clearing (a : α) (rest : List Patch)
      (h : (w.tasks a).patches = List.replicate w.entries.length .remove ++ rest)
      (hrest : .remove ∉ rest) (hothers : ∀ b, b ≠ a → .remove ∉ (w.tasks b).patches) :
      w.Removing 0

def World.Placed (w : World α σ) (a : α) (ticket : Ticket) : Prop :=
  w.Clean ∧ w.entries[ticket.index]? = some (some a, ticket.serial)

def World.Landed (w : World α σ) (a : α) (ticket : Ticket) : Prop :=
  ticket.serial < w.serial ∧ (w.epoch ≤ ticket.serial →
    .add ticket ∈ (w.tasks a).patches ∨ w.Placed a ticket)

def World.Following (w : World α σ) (a : α) : Prop :=
  ∀ before ticket after, (w.tasks a).patches = before ++ .replace ticket :: after →
    w.epoch ≤ ticket.serial → .add ticket ∈ before ∨ w.Placed a ticket

/-- What is left of an author's program uses only the tickets that the author has. It reads or
resets the counter only with no patch kept. -/
def Task.Ready (Q : σ → List Ticket → Prop) (tickets : List Ticket) (task : Task σ) : Prop :=
  task.prog.Plain Q tickets ∨ task.patches = [] ∧
    (task.prog.Sound Q tickets ∨ ∃ n p, task.prog = .restart n p ∧ p.Plain Q tickets)

structure World.Inv (Q : σ → List Ticket → Prop) (w : World α σ) : Prop where
  queued : ∃ base, w.Queued base ∧ w.Removing base
  following : ∀ a, w.Following a
  ready : ∀ a, ∃ tickets, (w.tasks a).Ready Q tickets ∧ ∀ ticket ∈ tickets, w.Landed a ticket
  right : ∀ p ∈ w.pushes, p.Right

variable {w : World α σ} {Q : σ → List Ticket → Prop}

@[simp] theorem World.set_self [DecidableEq α] (a : α) (task : Task σ) : (w.set a task).tasks a = task := by
  simp only [World.set, Function.update_self]

theorem World.set_other [DecidableEq α] (task : Task σ) (h : b ≠ a) : (w.set a task).tasks b = w.tasks b := by
  simp only [World.set, Function.update_of_ne h]

theorem World.Removing.eq (h : w.Removing base) (hclean : w.Clean) : base = w.entries.length := by
  cases h with
  | clean _ => rfl
  | clearing a rest h =>
    cases hentries : w.entries with
    | nil => rfl
    | cons entry entries =>
      apply absurd _ (hclean a)
      rw [h, hentries]
      exact List.mem_append_left _ List.mem_cons_self

theorem World.Removing.only (h : w.Removing base) (ha : (w.tasks a).patches = patch :: patches)
    (hpatch : patch ≠ .remove) : .remove ∉ (w.tasks a).patches := by
  cases h with
  | clean hclean => exact hclean a
  | clearing b rest hb hrest hothers =>
    by_cases hab : a = b
    · subst hab
      cases hentries : w.entries with
      | nil =>
        rw [hb, hentries]
        exact hrest
      | cons entry entries =>
        rw [hb, hentries] at ha
        have hhead : Patch.remove = patch := (List.cons.inj ha).1
        exact absurd hhead.symm hpatch
    · exact hothers a hab

theorem World.Removing.first (h : w.Removing base)
    (ha : (w.tasks a).patches = .remove :: patches) :
    ∃ entry entries, w.entries = entry :: entries ∧ base = 0 ∧
      (∃ rest, patches = List.replicate entries.length .remove ++ rest ∧ .remove ∉ rest) ∧
      ∀ b, b ≠ a → .remove ∉ (w.tasks b).patches := by
  have hmem : .remove ∈ (w.tasks a).patches := by
    rw [ha]
    exact List.mem_cons_self
  cases h with
  | clean hclean => exact absurd hmem (hclean a)
  | clearing b rest hb hrest hothers =>
    by_cases hab : a = b
    · subst hab
      cases hentries : w.entries with
      | nil =>
        rw [hb, hentries] at hmem
        exact absurd hmem hrest
      | cons entry entries =>
        rw [hb, hentries] at ha
        have htail := (List.cons.inj ha).2
        exact ⟨entry, entries, rfl, rfl, ⟨rest, htail.symm, hrest⟩, hothers⟩
    · exact absurd hmem (hothers a hab)

variable {w' : World α σ}

namespace World

/-- A ticket stays landed where patches are only kept and the entries, the epoch and what is
removed stay. -/
theorem Landed.mono (h : w.Landed a ticket)
    (hserial : w.serial ≤ w'.serial) (hepoch : w'.epoch = w.epoch)
    (hentries : w'.entries = w.entries) (hclean : w.Clean → w'.Clean)
    (hpatches : .add ticket ∈ (w.tasks a).patches → .add ticket ∈ (w'.tasks a).patches) :
    w'.Landed a ticket := by
  obtain ⟨hlt, hlanded⟩ := h
  apply And.intro (Nat.lt_of_lt_of_le hlt hserial)
  intro hle
  rw [hepoch] at hle
  cases hlanded hle with
  | inl hadd => exact .inl (hpatches hadd)
  | inr hplaced =>
    apply Or.inr
    apply And.intro (hclean hplaced.1)
    rw [hentries]
    exact hplaced.2

/-- What a patch kept as the author's last one leaves as it was. -/
structure Kept (w w' : World α σ) (a : α) (more : List Patch) : Prop where
  patches : (w'.tasks a).patches = (w.tasks a).patches ++ more
  others : ∀ b, b ≠ a → w'.tasks b = w.tasks b
  entries : w'.entries = w.entries
  epoch : w'.epoch = w.epoch
  serial : w.serial ≤ w'.serial
  pushes : w'.pushes = w.pushes
  keeps : .remove ∉ more

section
variable (h : w.Kept w' a more)
include h

theorem Kept.clean (hclean : w.Clean) :
    w'.Clean := by
  intro b hb
  by_cases hab : b = a
  · subst hab
    rw [h.patches, List.mem_append] at hb
    exact hb.elim (hclean b) h.keeps
  · rw [h.others b hab] at hb
    exact hclean b hb

theorem Kept.mem (hpatch : patch ∈ (w.tasks b).patches) : patch ∈ (w'.tasks b).patches := by
  by_cases hab : b = a
  · subst hab
    rw [h.patches]
    exact List.mem_append_left _ hpatch
  · rwa [h.others b hab]

theorem Kept.landed (hlanded : w.Landed b ticket) :
    w'.Landed b ticket :=
  hlanded.mono h.serial h.epoch h.entries h.clean h.mem

theorem Kept.removing (hremoving : w.Removing base) : w'.Removing base := by
  cases hremoving with
  | clean hclean =>
    rw [← h.entries]
    exact .clean (h.clean hclean)
  | clearing b rest hb hrest hothers =>
    by_cases hab : b = a
    · subst hab
      apply Removing.clearing b (rest ++ more)
      · rw [h.patches, hb, h.entries, List.append_assoc]
      · intro hmem
        exact (List.mem_append.mp hmem).elim hrest h.keeps
      · intro c hc
        rw [h.others c hc]
        exact hothers c hc
    · apply Removing.clearing b rest
      · rw [h.others b hab, hb, h.entries]
      · exact hrest
      · intro c hc hmem
        by_cases hca : c = a
        · subst hca
          rw [h.patches, List.mem_append] at hmem
          exact hmem.elim (hothers c hc) h.keeps
        · rw [h.others c hca] at hmem
          exact hothers c hc hmem

theorem Kept.mem_add (hmore : ∀ t, .add t ∉ more)
    (hadd : .add ticket ∈ (w'.tasks b).patches) : .add ticket ∈ (w.tasks b).patches := by
  by_cases hab : b = a
  · subst hab
    rw [h.patches, List.mem_append] at hadd
    exact hadd.resolve_right (hmore ticket)
  · rwa [h.others b hab] at hadd

theorem Kept.queued (hmore : ∀ t, .add t ∉ more)
    (hcounter : w'.counter = w.counter) (hqueued : w.Queued base) : w'.Queued base := by
  apply Queued.mk
  · rw [hcounter]
    exact hqueued.le
  · intro b ticket hadd
    rw [hcounter]
    exact hqueued.bounds b ticket (h.mem_add hmore hadd)
  · intro i hle hlt
    rw [hcounter] at hlt
    obtain ⟨b, ticket, hadd, hi⟩ := hqueued.covered i hle hlt
    exact ⟨b, ticket, h.mem hadd, hi⟩
  · intro b c ticket other hb hc
    exact hqueued.unique b c ticket other (h.mem_add hmore hb) (h.mem_add hmore hc)
  · intro b
    by_cases hab : b = a
    · subst hab
      rw [h.patches, List.pairwise_append]
      apply And.intro (hqueued.sorted b)
      apply And.intro
      · apply List.pairwise_of_forall_mem_list
        intro p hp q _ ticket later heq
        rw [heq] at hp
        exact absurd hp (hmore ticket)
      · intro p _ q hq ticket later _ heq
        rw [heq] at hq
        exact absurd hq (hmore later)
    · rw [h.others b hab]
      exact hqueued.sorted b

theorem Kept.placed (hplaced : w.Placed b ticket) :
    w'.Placed b ticket := by
  apply And.intro (h.clean hplaced.1)
  rw [h.entries]
  exact hplaced.2

end

theorem Inv.kept (h : w.Inv Q) (hkept : w.Kept w' a more)
    (hqueued : ∀ base, w.Queued base → w'.Queued base) (hfollowing : w'.Following a)
    (hready : ∃ tickets, (w'.tasks a).Ready Q tickets ∧ ∀ t ∈ tickets, w'.Landed a t) :
    w'.Inv Q := by
  apply Inv.mk
  · obtain ⟨base, hbase, hremoving⟩ := h.queued
    exact ⟨base, hqueued base hbase, hkept.removing hremoving⟩
  · intro b
    by_cases hab : b = a
    · subst hab
      exact hfollowing
    · intro before ticket after heq hle
      rw [hkept.others b hab] at heq
      rw [hkept.epoch] at hle
      exact (h.following b before ticket after heq hle).imp id hkept.placed
  · intro b
    by_cases hab : b = a
    · subst hab
      exact hready
    · obtain ⟨tickets, htask, hlanded⟩ := h.ready b
      apply Exists.intro tickets
      rw [hkept.others b hab]
      exact ⟨htask, fun t ht => hkept.landed (hlanded t ht)⟩
  · rw [hkept.pushes]
    exact h.right

theorem Inv.start (hQ : Q s []) (n : Nat) : (World.start s n n : World α σ).Inv Q := by
  apply Inv.mk
  · apply Exists.intro n
    apply And.intro
    · apply Queued.mk (Nat.le_refl n)
      · intro a ticket hadd
        exact absurd hadd List.not_mem_nil
      · intro i hle hlt
        exact absurd hlt (Nat.not_lt.mpr hle)
      · intro a b ticket other hadd
        exact absurd hadd List.not_mem_nil
      · intro a
        exact List.Pairwise.nil
    · have hclean : (World.start s n n : World α σ).Clean := fun _ => List.not_mem_nil
      have hremoving := Removing.clean hclean
      rwa [World.start, List.length_map, List.length_range] at hremoving
  · intro a before ticket after heq
    exact absurd heq (by simp [World.start])
  · intro a
    exact ⟨[], .inl hQ, fun _ ht => absurd ht List.not_mem_nil⟩
  · intro p hp
    exact absurd hp List.not_mem_nil

theorem Inv.counter_eq (h : w.Inv Q) (hempty : ∀ b, (w.tasks b).patches = []) :
    w.counter = w.entries.length := by
  obtain ⟨base, hqueued, hremoving⟩ := h.queued
  have hclean : w.Clean := by
    intro b
    rw [hempty b]
    exact List.not_mem_nil
  rw [← hremoving.eq hclean]
  apply Nat.le_antisymm _ hqueued.le
  apply Nat.le_of_not_lt
  intro hlt
  obtain ⟨b, ticket, hadd, -⟩ := hqueued.covered base (Nat.le_refl _) hlt
  rw [hempty b] at hadd
  exact List.not_mem_nil hadd

end World

section
variable [DecidableEq α]

theorem World.kept_set (w : World α σ) (a : α) (p : Prog σ) {more : List Patch}
    (hmore : .remove ∉ more) :
    w.Kept (w.set a ⟨p, (w.tasks a).patches ++ more⟩) a more := by
  apply World.Kept.mk
  · rw [World.set_self]
  · intro b hab
    exact World.set_other _ hab
  · rfl
  · rfl
  · exact Nat.le_refl _
  · rfl
  · exact hmore

theorem World.Inv.goto (h : w.Inv Q) (ha : w.tasks a = ⟨p, patches⟩)
    (hready : ∀ tickets, (w.tasks a).Ready Q tickets → Task.Ready Q tickets ⟨p', patches⟩) :
    (w.set a ⟨p', patches⟩).Inv Q := by
  have hkept : w.Kept (w.set a ⟨p', patches⟩) a [] := by
    have hnil : Patch.remove ∉ [] := List.not_mem_nil
    have hset := w.kept_set a p' hnil
    rwa [List.append_nil, ha] at hset
  apply h.kept hkept
  · intro base hqueued
    exact hkept.queued (fun _ => List.not_mem_nil) rfl hqueued
  · intro before ticket after heq hle
    rw [hkept.patches, List.append_nil] at heq
    exact (h.following a before ticket after heq hle).imp id hkept.placed
  · obtain ⟨tickets, htask, hlanded⟩ := h.ready a
    apply Exists.intro tickets
    apply And.intro
    · rw [World.set_self]
      exact hready tickets htask
    · intro t ht
      exact hkept.landed (hlanded t ht)

theorem Task.Ready.plain {patches : List Patch} (h : Task.Ready Q tickets ⟨p, patches⟩) (hcurrent : ∀ k, p ≠ .current k)
    (hrestart : ∀ n p', p ≠ .restart n p') : p.Plain Q tickets := by
  cases h with
  | inl hplain => exact hplain
  | inr hstart =>
    cases hstart.2 with
    | inl hsound =>
      cases hsound with
      | inl hplain => exact hplain
      | inr hk =>
        obtain ⟨k, hp, -⟩ := hk
        exact absurd hp (hcurrent k)
    | inr hn =>
      obtain ⟨n, p', hp, -⟩ := hn
      exact absurd hp (hrestart n p')

theorem Task.Ready.read {patches : List Patch} (h : Task.Ready Q tickets ⟨.current k, patches⟩) (n : Nat) :
    Task.Ready Q tickets ⟨k n, patches⟩ := by
  cases h with
  | inl hplain => exact hplain.elim
  | inr hstart =>
    cases hstart.2 with
    | inr hn =>
      obtain ⟨n, p', hp, -⟩ := hn
      cases hp
    | inl hsound =>
      cases hsound with
      | inl hplain => exact hplain.elim
      | inr hk =>
        obtain ⟨k', hp, hk'⟩ := hk
        cases hp
        cases hk' n with
        | inl hplain => exact .inl hplain
        | inr hrestart =>
          obtain ⟨p', hp', hplain⟩ := hrestart
          exact .inr ⟨hstart.1, .inr ⟨n, p', hp', hplain⟩⟩

namespace World

theorem Inv.keep_replace (h : w.Inv Q) (ha : w.tasks a = ⟨.replace ticket p, patches⟩) :
    (w.set a ⟨p, patches ++ [.replace ticket]⟩).Inv Q := by
  have hkept : w.Kept (w.set a ⟨p, patches ++ [.replace ticket]⟩) a [.replace ticket] := by
    have hreplace : Patch.remove ∉ [Patch.replace ticket] := by simp
    have hset := w.kept_set a p hreplace
    rwa [ha] at hset
  obtain ⟨tickets, htask, hlanded⟩ := h.ready a
  rw [ha] at htask
  have hplain := htask.plain (by simp) (by simp)
  apply h.kept hkept
  · intro base hqueued
    apply hkept.queued _ rfl hqueued
    intro t ht
    exact absurd (List.mem_singleton.mp ht) Patch.noConfusion
  · intro before t after heq hle
    rw [hkept.patches, ha] at heq
    obtain ⟨after', heq'⟩ | hlast := Run.split_concat heq
    · exact (h.following a before t after' (by rw [ha, heq']) hle).imp id hkept.placed
    · obtain ⟨rfl, hpatch⟩ := hlast
      cases hpatch
      have hmine := hlanded ticket hplain.1
      rw [Landed, ha] at hmine
      exact (hmine.2 hle).imp id hkept.placed
  · apply Exists.intro tickets
    rw [set_self]
    exact ⟨.inl hplain.2, fun t ht => hkept.landed (hlanded t ht)⟩

theorem kept_take (w : World α σ) (k : Ticket → Prog σ) :
    w.Kept (w.take a k (w.tasks a).patches) a [.add ⟨w.counter, w.serial⟩] := by
  apply Kept.mk
  · simp only [take, set_self]
  · intro b hab
    simp only [take, set_other _ hab]
  · rfl
  · rfl
  · exact Nat.le_succ _
  · rfl
  · simp

theorem Queued.take (h : w.Queued base) (k : Ticket → Prog σ) :
    (w.take a k (w.tasks a).patches).Queued base := by
  have hkept := w.kept_take (a := a) k
  have hadd : ∀ b ticket, .add ticket ∈ ((w.take a k (w.tasks a).patches).tasks b).patches →
      .add ticket ∈ (w.tasks b).patches ∨ b = a ∧ ticket = ⟨w.counter, w.serial⟩ := by
    intro b ticket hmem
    by_cases hab : b = a
    · subst hab
      rw [hkept.patches, List.mem_append, List.mem_singleton] at hmem
      exact hmem.imp id fun heq => ⟨rfl, Patch.add.inj heq⟩
    · rw [hkept.others b hab] at hmem
      exact .inl hmem
  have hcounter : (w.take a k (w.tasks a).patches).counter = w.counter + 1 := rfl
  apply Queued.mk
  · exact Nat.le_succ_of_le h.le
  · intro b ticket hmem
    rw [hcounter]
    obtain hold | ⟨rfl, rfl⟩ := hadd b ticket hmem
    · have hbounds := h.bounds b ticket hold
      exact ⟨hbounds.1, Nat.lt_succ_of_lt hbounds.2⟩
    · exact ⟨h.le, Nat.lt_succ_self _⟩
  · intro i hle hlt
    rw [hcounter] at hlt
    obtain hlast | hold := Nat.eq_or_lt_of_le (Nat.le_of_lt_succ hlt)
    · apply Exists.intro a
      apply Exists.intro ⟨w.counter, w.serial⟩
      apply And.intro _ hlast.symm
      rw [hkept.patches]
      exact List.mem_append_right _ (List.mem_singleton_self _)
    · obtain ⟨b, ticket, hmem, hi⟩ := h.covered i hle hold
      exact ⟨b, ticket, hkept.mem hmem, hi⟩
  · intro b c ticket other hb hc heq
    obtain hb' | ⟨rfl, rfl⟩ := hadd b ticket hb
    · obtain hc' | ⟨rfl, rfl⟩ := hadd c other hc
      · exact h.unique b c ticket other hb' hc' heq
      · have hlt := (h.bounds b ticket hb').2
        exact absurd heq (Nat.ne_of_lt hlt)
    · obtain hc' | ⟨rfl, rfl⟩ := hadd c other hc
      · have hlt := (h.bounds c other hc').2
        exact absurd heq.symm (Nat.ne_of_lt hlt)
      · rfl
  · intro b
    by_cases hab : b = a
    · subst hab
      rw [hkept.patches, List.pairwise_append]
      apply And.intro (h.sorted b)
      apply And.intro (List.pairwise_singleton _ _)
      intro p hp q hq ticket later hticket hlater
      rw [hticket] at hp
      rw [List.mem_singleton.mp hq] at hlater
      rw [← Patch.add.inj hlater]
      exact (h.bounds b ticket hp).2
    · rw [hkept.others b hab]
      exact h.sorted b

theorem Inv.take (h : w.Inv Q) (ha : w.tasks a = ⟨.add k, patches⟩) :
    (w.take a k patches).Inv Q := by
  have hpatches : patches = (w.tasks a).patches := by rw [ha]
  subst hpatches
  have hkept := w.kept_take (a := a) k
  apply h.kept hkept
  · intro base hqueued
    exact hqueued.take k
  · intro before t after heq hle
    rw [hkept.patches] at heq
    obtain ⟨after', heq'⟩ | ⟨-, hpatch⟩ := Run.split_concat heq
    · exact (h.following a before t after' heq' hle).imp id hkept.placed
    · exact absurd hpatch (by simp)
  · obtain ⟨tickets, htask, hlanded⟩ := h.ready a
    rw [ha] at htask
    have hplain : ∀ ticket, (k ticket).Plain Q (ticket :: tickets) :=
      htask.plain (by simp) (by simp)
    apply Exists.intro (⟨w.counter, w.serial⟩ :: tickets)
    apply And.intro
    · simp only [World.take, set_self]
      exact .inl (hplain _)
    · intro t ht
      obtain rfl | ht := List.mem_cons.mp ht
      · apply And.intro (Nat.lt_succ_self w.serial)
        intro _
        apply Or.inl
        rw [hkept.patches]
        exact List.mem_append_right _ (List.mem_singleton_self _)
      · exact hkept.landed (hlanded t ht)

theorem Inv.restart (h : w.Inv Q) (ha : w.tasks a = ⟨.restart n p, patches⟩)
    (hn : w.counter = n) (hothers : ∀ b, b ≠ a → (w.tasks b).patches = []) :
    (w.restart a n p patches).Inv Q := by
  obtain ⟨tickets, htask, hlanded⟩ := h.ready a
  have hstart : patches = [] ∧ p.Plain Q tickets := by
    rw [ha] at htask
    cases htask with
    | inl hplain => exact hplain.elim
    | inr hstart =>
      apply And.intro hstart.1
      cases hstart.2 with
      | inl hsound =>
        cases hsound with
        | inl hplain => exact hplain.elim
        | inr hk =>
          obtain ⟨k, hk, -⟩ := hk
          cases hk
      | inr hn =>
        obtain ⟨n', p', hp, hplain⟩ := hn
        cases hp
        exact hplain
  obtain ⟨rfl, hplain⟩ := hstart
  have hempty : ∀ b, (w.tasks b).patches = [] := by
    intro b
    by_cases hab : b = a
    · rw [hab, ha]
    · exact hothers b hab
  have hcounter := h.counter_eq hempty
  have hself : (w.restart a n p []).tasks a = ⟨p, List.replicate n .remove⟩ := by
    simp only [World.restart, set_self, List.nil_append]
  have hother : ∀ b, b ≠ a → ((w.restart a n p []).tasks b).patches = [] := by
    intro b hab
    simp only [World.restart, set_other _ hab]
    exact hothers b hab
  have hremove : ∀ b, ∀ patch ∈ ((w.restart a n p []).tasks b).patches, patch = .remove := by
    intro b patch hpatch
    by_cases hab : b = a
    · rw [hab, hself] at hpatch
      exact List.eq_of_mem_replicate hpatch
    · rw [hother b hab] at hpatch
      exact absurd hpatch List.not_mem_nil
  apply Inv.mk
  · apply Exists.intro 0
    apply And.intro
    · apply Queued.mk (Nat.le_refl 0)
      · intro b ticket hadd
        exact absurd (hremove b _ hadd) (by simp)
      · intro i _ hlt
        exact absurd hlt (Nat.not_lt_zero i)
      · intro b _ ticket _ hadd
        exact absurd (hremove b _ hadd) (by simp)
      · intro b
        apply List.pairwise_of_forall_mem_list
        intro q hq _ _ ticket _ heq
        rw [hremove b q hq] at heq
        exact absurd heq (by simp)
    · apply Removing.clearing a []
      · rw [hself, List.append_nil, ← hn, hcounter]
        rfl
      · exact List.not_mem_nil
      · intro b hab
        rw [hother b hab]
        exact List.not_mem_nil
  · intro b before ticket after heq
    have hmem : Patch.replace ticket ∈ ((w.restart a n p []).tasks b).patches := by
      rw [heq]
      exact List.mem_append_right _ List.mem_cons_self
    exact absurd (hremove b _ hmem) (by simp)
  · intro b
    -- all tickets are from before the reset
    have hold : ∀ ticket, w.Landed b ticket → (w.restart a n p []).Landed b ticket := by
      intro ticket hticket
      apply And.intro hticket.1
      intro hle
      exact absurd hticket.1 (Nat.not_lt.mpr hle)
    by_cases hab : b = a
    · subst hab
      apply Exists.intro tickets
      rw [hself]
      exact ⟨.inl hplain, fun t ht => hold t (hlanded t ht)⟩
    · obtain ⟨tickets, htask, hlanded⟩ := h.ready b
      apply Exists.intro tickets
      simp only [World.restart, set_other _ hab]
      exact ⟨htask, fun t ht => hold t (hlanded t ht)⟩
  · exact h.right

end World

section
variable (ha : w.tasks a = ⟨.done result, patch :: patches⟩)
include ha

theorem World.mem_push (hmem : q ∈ ((w.push a result patch patches).tasks b).patches) :
    q ∈ (w.tasks b).patches := by
  by_cases hab : b = a
  · subst hab
    rw [ha]
    rw [World.push, World.set_self] at hmem
    exact List.mem_cons_of_mem _ hmem
  · rwa [World.push, World.set_other _ hab] at hmem

theorem World.clean_push (hclean : w.Clean) : (w.push a result patch patches).Clean := by
  intro b hmem
  exact hclean b (World.mem_push ha hmem)

theorem World.Queued.push (h : w.Queued base) (hpatch : ∀ ticket, patch ≠ .add ticket) :
    (w.push a result patch patches).Queued base := by
  apply World.Queued.mk
  · exact h.le
  · intro b ticket hadd
    exact h.bounds b ticket (World.mem_push ha hadd)
  · intro i hle hlt
    obtain ⟨b, ticket, hadd, hi⟩ := h.covered i hle hlt
    apply Exists.intro b
    apply Exists.intro ticket
    apply And.intro _ hi
    by_cases hab : b = a
    · subst hab
      rw [ha] at hadd
      rw [World.push, World.set_self]
      exact (List.mem_cons.mp hadd).resolve_left fun heq => hpatch ticket heq.symm
    · rwa [World.push, World.set_other _ hab]
  · intro b c ticket other hb hc
    exact h.unique b c ticket other (World.mem_push ha hb) (World.mem_push ha hc)
  · intro b
    by_cases hab : b = a
    · subst hab
      have hsorted := h.sorted b
      rw [ha] at hsorted
      rw [World.push, World.set_self]
      exact (List.pairwise_cons.mp hsorted).2
    · rw [World.push, World.set_other _ hab]
      exact h.sorted b

theorem World.Queued.push_add (h : w.Queued ticket.index) (hpatch : patch = .add ticket) :
    (w.push a result patch patches).Queued (ticket.index + 1) := by
  subst hpatch
  have hmine : .add ticket ∈ (w.tasks a).patches := by
    rw [ha]
    exact List.mem_cons_self
  have hlater : ∀ later, .add later ∈ patches → ticket.index < later.index := by
    intro later hmem
    have hsorted := h.sorted a
    rw [ha] at hsorted
    exact (List.pairwise_cons.mp hsorted).1 _ hmem ticket later rfl rfl
  apply World.Queued.mk
  · exact (h.bounds a ticket hmine).2
  · intro b later hadd
    have hold := World.mem_push ha hadd
    have hbounds := h.bounds b later hold
    apply And.intro _ hbounds.2
    by_cases hab : b = a
    · subst hab
      rw [World.push, World.set_self] at hadd
      exact hlater later hadd
    · apply Nat.lt_of_le_of_ne hbounds.1
      intro heq
      exact hab (h.unique b a later ticket hold hmine heq.symm)
  · intro i hle hlt
    obtain ⟨b, later, hadd, hi⟩ := h.covered i (Nat.le_of_succ_le hle) hlt
    apply Exists.intro b
    apply Exists.intro later
    apply And.intro _ hi
    by_cases hab : b = a
    · subst hab
      rw [ha] at hadd
      rw [World.push, World.set_self]
      apply (List.mem_cons.mp hadd).resolve_left
      intro heq
      rw [Patch.add.inj heq] at hi
      rw [hi] at hle
      exact Nat.not_succ_le_self i hle
    · rwa [World.push, World.set_other _ hab]
  · intro b c t other hb hc
    exact h.unique b c t other (World.mem_push ha hb) (World.mem_push ha hc)
  · intro b
    by_cases hab : b = a
    · subst hab
      have hsorted := h.sorted b
      rw [ha] at hsorted
      rw [World.push, World.set_self]
      exact (List.pairwise_cons.mp hsorted).2
    · rw [World.push, World.set_other _ hab]
      exact h.sorted b

namespace World

/-- What is to be seen of a push: that the patch is right, that the entries placed stay so, and
that an entry added is placed. -/
theorem Inv.pushed (h : w.Inv Q)
    (hqueued : ∃ base, (w.push a result patch patches).Queued base ∧
      (w.push a result patch patches).Removing base)
    (hplaced : ∀ b ticket, w.Placed b ticket → (w.push a result patch patches).Placed b ticket)
    (hadd : ∀ ticket, patch = .add ticket → (w.push a result patch patches).Placed a ticket)
    (hright : Push.Right ⟨a, patch, w.entries⟩) : (w.push a result patch patches).Inv Q := by
  apply Inv.mk hqueued
  · intro b before ticket after heq hle
    by_cases hab : b = a
    · subst hab
      rw [push, set_self] at heq
      have hwhole : (w.tasks b).patches = (patch :: before) ++ .replace ticket :: after := by
        rw [ha, List.cons_append, ← heq]
      cases h.following b (patch :: before) ticket after hwhole hle with
      | inl hmem =>
        obtain hfirst | hbefore := List.mem_cons.mp hmem
        · exact .inr (hadd ticket hfirst.symm)
        · exact .inl hbefore
      | inr hthere => exact .inr (hplaced b ticket hthere)
    · rw [push, set_other _ hab] at heq
      exact (h.following b before ticket after heq hle).imp id (hplaced b ticket)
  · intro b
    obtain ⟨tickets, htask, hlanded⟩ := h.ready b
    apply Exists.intro tickets
    apply And.intro
    · by_cases hab : b = a
      · subst hab
        rw [ha] at htask
        rw [push, set_self]
        exact .inl (htask.plain (by simp) (by simp))
      · rwa [push, set_other _ hab]
    · intro ticket hticket
      apply And.intro (hlanded ticket hticket).1
      intro hle
      cases (hlanded ticket hticket).2 hle with
      | inr hthere => exact .inr (hplaced b ticket hthere)
      | inl hmem =>
        by_cases hab : b = a
        · subst hab
          rw [ha] at hmem
          obtain hfirst | hrest := List.mem_cons.mp hmem
          · exact .inr (hadd ticket hfirst.symm)
          · apply Or.inl
            rwa [push, set_self]
        · apply Or.inl
          rwa [push, set_other _ hab]
  · intro p hp
    obtain hold | hnew := List.mem_append.mp hp
    · exact h.right p hold
    · rw [List.mem_singleton.mp hnew]
      exact hright

theorem Inv.push_replace (h : w.Inv Q) (hpatch : patch = .replace ticket)
    (hle : w.epoch ≤ ticket.serial) : (w.push a result patch patches).Inv Q := by
  subst hpatch
  obtain ⟨base, hqueued, hremoving⟩ := h.queued
  have hthere : w.Placed a ticket := by
    have hfirst : (w.tasks a).patches = [] ++ .replace ticket :: patches := by rw [ha]; rfl
    exact (h.following a [] ticket patches hfirst hle).resolve_left List.not_mem_nil
  have hclean := clean_push ha hthere.1
  apply Inv.pushed ha h
  · apply Exists.intro base
    apply And.intro (hqueued.push ha (by simp))
    rw [hremoving.eq hthere.1]
    exact .clean hclean
  · intro b t ht
    exact ⟨hclean, ht.2⟩
  · intro t ht
    exact absurd ht (by simp)
  · exact hthere.2

theorem Inv.push_remove (h : w.Inv Q) (hpatch : patch = .remove) :
    (w.push a result patch patches).Inv Q := by
  subst hpatch
  obtain ⟨base, hqueued, hremoving⟩ := h.queued
  have hmem : .remove ∈ (w.tasks a).patches := by
    rw [ha]
    exact List.mem_cons_self
  have hfirst : (w.tasks a).patches = .remove :: patches := by rw [ha]
  obtain ⟨entry, entries, hentries, rfl, ⟨rest, hrest, hplain⟩, hothers⟩ := hremoving.first hfirst
  apply Inv.pushed ha h
  · apply Exists.intro 0
    apply And.intro (hqueued.push ha (by simp))
    apply Removing.clearing a rest _ hplain
    · intro b hab
      rw [push, set_other _ hab]
      exact hothers b hab
    · rw [push, set_self, hrest]
      simp only [set, Patch.apply, hentries, List.tail_cons]
  · intro b t ht
    exact absurd hmem (ht.1 a)
  · intro t ht
    exact absurd ht (by simp)
  · rw [Push.Right, hentries]
    exact List.cons_ne_nil _ _

theorem Inv.push_add (h : w.Inv Q) (hpatch : patch = .add ticket)
    (hafter : ∀ b, b ≠ a → ∀ q ∈ (w.tasks b).patches, q.After ticket) :
    (w.push a result patch patches).Inv Q := by
  subst hpatch
  obtain ⟨base, hqueued, hremoving⟩ := h.queued
  have hfirst : (w.tasks a).patches = .add ticket :: patches := by rw [ha]
  have hmine : .add ticket ∈ (w.tasks a).patches := by
    rw [hfirst]
    exact List.mem_cons_self
  have hclean : w.Clean := by
    intro b hmem
    by_cases hab : b = a
    · subst hab
      exact hremoving.only hfirst (by simp) hmem
    · exact hafter b hab .remove hmem
  have hbase : base = ticket.index := by
    apply Nat.le_antisymm (hqueued.bounds a ticket hmine).1
    apply Nat.le_of_not_lt
    intro hlt
    obtain ⟨b, first, hadd, hi⟩ := hqueued.covered base (Nat.le_refl _)
      (Nat.lt_trans hlt (hqueued.bounds a ticket hmine).2)
    apply Nat.not_le.mpr hlt
    rw [← hi]
    by_cases hab : b = a
    · subst hab
      rw [hfirst] at hadd
      obtain heq | hrest := List.mem_cons.mp hadd
      · exact Nat.le_of_eq (congrArg Ticket.index (Patch.add.inj heq).symm)
      · have hsorted := hqueued.sorted b
        rw [hfirst] at hsorted
        exact Nat.le_of_lt ((List.pairwise_cons.mp hsorted).1 _ hrest ticket first rfl rfl)
    · exact hafter b hab (.add first) hadd
  subst hbase
  have hlength := hremoving.eq hclean
  have hentries : (w.push a result (.add ticket) patches).entries =
      w.entries ++ [(some a, ticket.serial)] := by
    change w.entries.insertIdx ticket.index _ = _
    rw [hlength, List.insertIdx_length_self]
  apply Inv.pushed ha h
  · apply Exists.intro (ticket.index + 1)
    apply And.intro (hqueued.push_add ha rfl)
    rw [hlength, ← List.length_singleton (a := (some a, ticket.serial)), ← List.length_append,
      ← hentries]
    exact .clean (clean_push ha hclean)
  · intro b t ht
    apply And.intro (clean_push ha hclean)
    rw [hentries]
    obtain ⟨hlt, -⟩ := List.getElem?_eq_some_iff.mp ht.2
    rw [List.getElem?_append_left hlt]
    exact ht.2
  · intro t ht
    apply And.intro (clean_push ha hclean)
    rw [hentries, ← Patch.add.inj ht, hlength,
      List.getElem?_append_right (Nat.le_refl _), Nat.sub_self]
    rfl
  · exact hlength

end World

end

variable {handle : α → σ → μ → Prog σ}

theorem World.Inv.exec (h : w.Inv Q)
    (hhandle : ∀ a s msg tickets, Q s tickets → (handle a s msg).Sound Q tickets)
    (hallowed : Orderly w event) : (w.exec handle event).Inv Q := by
  cases event with
  | load a msg =>
    simp only [World.exec]
    split
    · rename_i s ha
      apply h.goto ha
      intro tickets htask
      rw [ha] at htask
      exact .inr ⟨rfl, .inl (hhandle a s msg tickets (htask.plain (by simp) (by simp)))⟩
    · exact h
  | step a =>
    simp only [World.exec]
    have hstep : OrderlyStep w a (w.tasks a) := hallowed
    split
    · exact h
    · rename_i s patch patches ha
      rw [ha] at hstep
      cases patch with
      | add ticket => exact h.push_add ha rfl hstep
      | replace ticket => exact h.push_replace ha rfl hstep
      | remove => exact h.push_remove ha rfl
    · rename_i k patches ha
      exact h.take ha
    · rename_i ticket p patches ha
      exact h.keep_replace ha
    · rename_i k patches ha
      apply h.goto ha
      intro tickets htask
      rw [ha] at htask
      exact htask.read w.counter
    · rename_i n p patches ha
      rw [ha] at hstep
      exact h.restart ha hstep.1 hstep.2

theorem pushes_right (hQ : Q s [])
    (hhandle : ∀ a s msg tickets, Q s tickets → (handle a s msg).Sound Q tickets)
    (hrun : Run.Each (World.exec handle) Orderly (World.start s n n) events) :
    ∀ p ∈ (Run.run (World.exec handle) (World.start s n n) events).pushes, p.Right := by
  have hinv := hrun.preserves (P := World.Inv Q) (fun _ _ h hok => h.exec hhandle hok)
    (World.Inv.start hQ n)
  exact hinv.right

end

end SharedIndex
