import Mathlib.Data.List.Infix

namespace RecordStream
set_option autoImplicit true

/-- A place in an input: how many symbols are behind it, and the symbols ahead. -/
structure Cursor (β : Type) where
  position : Nat
  rest : List β

/-- The place `n` symbols on. -/
def Cursor.advance (s : Cursor β) (n : Nat) : Cursor β := ⟨s.position + n, s.rest.drop n⟩

def Cursor.seek (input : List β) (p : Nat) : Cursor β := ⟨p, input.drop p⟩

theorem Cursor.seek_advance (input : List β) (p n : Nat) :
    (Cursor.seek input p).advance n = Cursor.seek input (p + n) := by
  simp only [advance, seek, List.drop_drop]

/-- Reads one item from a place and returns the place behind it. -/
abbrev Reader (ε α β : Type) := Cursor β → Except ε (α × Cursor β)

/-- Reading moves forward, and not past the end. -/
def Advancing (read : Reader ε α β) : Prop :=
  ∀ s a t, read s = .ok (a, t) → ∃ n, 0 < n ∧ n ≤ s.rest.length ∧ t = s.advance n

/-- At position `p` the symbols `used` are the item `a`, whatever follows them. -/
structure Reads (read : Reader ε α β) (p : Nat) (used : List β) (a : α) : Prop where
  nonempty : used ≠ []
  read_append : ∀ tail, read ⟨p, used ++ tail⟩ = .ok (a, ⟨p + used.length, tail⟩)

/-- What is read depends on nothing behind the item. -/
def Local (read : Reader ε α β) : Prop :=
  ∀ s a t, read s = .ok (a, t) → ∃ used, s.rest = used ++ t.rest ∧ Reads read s.position used a

/-- The whole input from `p` on is a sequence of items. -/
inductive Records (read : Reader ε α β) : Nat → List β → List α → Prop
  | nil : Records read p [] []
  | cons : Reads read p used a → Records read (p + used.length) rest as →
      Records read p (used ++ rest) (a :: as)

/-- Reading item after item from a place reaches the end of the input. -/
inductive Trace (read : Reader ε α β) : Cursor β → List α → Prop
  | done : Trace read ⟨p, []⟩ []
  | item : s.rest ≠ [] → read s = .ok (a, t) → Trace read t as → Trace read s (a :: as)

variable {read : Reader ε α β}

theorem Reads.unique (h : Reads read p used a) (h' : Reads read p used' a')
    (he : used ++ rest = used' ++ rest') : a = a' ∧ used = used' ∧ rest = rest' := by
  have hr := h.read_append rest
  have hr' := h'.read_append rest'
  rw [he, hr'] at hr
  obtain ⟨ha, hs⟩ := Prod.mk.inj (Except.ok.inj hr)
  obtain ⟨hp, hrest⟩ := Cursor.mk.inj hs
  have hl : used.length = used'.length := by omega
  obtain ⟨hu, -⟩ := List.append_inj he hl
  exact ⟨ha.symm, hu, hrest.symm⟩

theorem Records.append (h : Records read p x as)
    (h' : Records read (p + x.length) y bs) : Records read p (x ++ y) (as ++ bs) := by
  induction h with
  | nil => exact h'
  | cons hr _ ih =>
    rw [List.append_assoc]
    apply Records.cons hr
    apply ih
    rwa [List.length_append, ← Nat.add_assoc] at h'

theorem Records.snoc (h : Records read p x as)
    (h' : Reads read (p + x.length) used a) : Records read p (x ++ used) (as ++ [a]) := by
  apply h.append
  have := Records.cons h' Records.nil
  rwa [List.append_nil] at this

theorem Records.cut (h : Records read p x as) (h' : Records read p (x ++ y) cs) :
    ∃ bs, cs = as ++ bs ∧ Records read (p + x.length) y bs := by
  induction h generalizing cs with
  | nil => exact ⟨cs, rfl, h'⟩
  | @cons p used a rest as hr _ ih =>
    generalize hz : (used ++ rest) ++ y = z at h'
    cases h' with
    | nil => simp [hr.nonempty] at hz
    | @cons _ used' a' rest' _ hr' ht =>
      rw [List.append_assoc] at hz
      obtain ⟨rfl, rfl, rfl⟩ := hr.unique hr' hz
      obtain ⟨bs, rfl, hbs⟩ := ih ht
      refine ⟨bs, rfl, ?_⟩
      rwa [List.length_append, ← Nat.add_assoc]

theorem Records.split (h : Records read p l (as ++ bs)) :
    ∃ x y, l = x ++ y ∧ Records read p x as ∧ Records read (p + x.length) y bs := by
  induction as generalizing p l with
  | nil => exact ⟨[], l, rfl, .nil, h⟩
  | cons a as ih =>
    cases h with
    | @cons _ used _ rest _ hr hrest =>
      obtain ⟨x, y, rfl, hx, hy⟩ := ih hrest
      refine ⟨used ++ x, y, (List.append_assoc _ _ _).symm, .cons hr hx, ?_⟩
      rwa [List.length_append, ← Nat.add_assoc]

theorem Records.trace (h : Records read p x as) :
    Trace read ⟨p, x⟩ as := by
  induction h with
  | nil => exact .done
  | cons hr _ ih =>
    have hne := hr.nonempty
    exact .item (by simp [hne]) (hr.read_append _) ih

theorem Trace.records (hl : Local read) (h : Trace read s as) :
    Records read s.position s.rest as := by
  induction h with
  | done => exact .nil
  | @item s a t as _ hr _ ih =>
    obtain ⟨used, hs, hu⟩ := hl s a t hr
    have ht := hu.read_append t.rest
    have heq : s = ⟨s.position, used ++ t.rest⟩ := by rw [← hs]
    rw [← heq, hr] at ht
    have ht := (Prod.mk.inj (Except.ok.inj ht)).2
    rw [hs]
    apply Records.cons hu
    rwa [ht] at ih

theorem Trace.unique (h : Trace read s as) (h' : Trace read s bs) :
    as = bs := by
  induction h generalizing bs with
  | done =>
    cases h' with
    | done => rfl
    | item hne => exact absurd rfl hne
  | item hne hr _ ih =>
    cases h' with
    | done => exact absurd rfl hne
    | item _ hr' ht =>
      rw [hr] at hr'
      obtain ⟨rfl, rfl⟩ := Prod.mk.inj (Except.ok.inj hr')
      rw [ih ht]

theorem Trace.read_at (ha : Advancing read)
    (h : Trace read (Cursor.seek input p) as) (hm : a ∈ as) :
    ∃ q t, read (Cursor.seek input q) = .ok (a, t) := by
  generalize hs : Cursor.seek input p = s at h
  induction h generalizing p with
  | done => cases hm
  | @item s b t as _ hr _ ih =>
    cases hm with
    | head => exact ⟨p, t, by rw [hs, hr]⟩
    | tail _ hm =>
      obtain ⟨n, -, -, rfl⟩ := ha s b t hr
      apply ih hm
      rw [← hs, Cursor.seek_advance]

/-- The part of `l` between two offsets, where `l` itself begins at `offset`. -/
def window (offset : Nat) (l : List β) (start stop : Nat) : List β :=
  (l.drop (start - offset)).take (stop - max start offset)

theorem window_length (offset : Nat) (l : List β) (start stop : Nat) :
    (window offset l start stop).length ≤ stop - start := by
  rw [window, List.length_take]
  omega

theorem window_zero (l : List β) (start stop : Nat) :
    window 0 l start stop = (l.drop start).take (stop - start) := by
  rw [window, Nat.max_zero, Nat.sub_zero]

theorem window_stop_le (l : List β) (h : stop ≤ offset) : window offset l start stop = [] := by
  rw [window, Nat.sub_eq_zero_of_le (by omega), List.take_zero]

theorem window_le_start (l : List β) (h : offset + l.length ≤ start) :
    window offset l start stop = [] := by
  rw [window, List.drop_of_length_le (by omega), List.take_nil]

theorem window_append (offset : Nat) (l l' : List β) (start stop : Nat) :
    window offset (l ++ l') start stop =
      window offset l start stop ++ window (offset + l.length) l' start stop := by
  simp only [window, List.drop_append, List.take_append, List.length_drop]
  by_cases hstart : start ≤ offset + l.length
  · have h0 : start - offset - l.length = 0 := by omega
    have h0' : start - (offset + l.length) = 0 := by omega
    rw [h0, h0']
    congr 2
    omega
  · have h1 : start - offset - l.length = start - (offset + l.length) := by omega
    rw [h1, List.drop_of_length_le (by omega : l.length ≤ start - offset)]
    simp only [List.take_nil, List.nil_append]
    congr 1
    omega

theorem window_split (l : List β) (h : a ≤ b) (h' : b ≤ d) :
    window 0 l a d = window 0 l a b ++ window 0 l b d := by
  simp only [window_zero]
  have hd : d - a = (b - a) + (d - b) := by omega
  have hb : b = a + (b - a) := by omega
  rw [hd, List.take_add, List.drop_drop, ← hb]

end RecordStream
