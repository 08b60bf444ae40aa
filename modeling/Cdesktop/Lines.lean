import Mathlib.Data.List.DropRight

/-! Texts cut after each separator. -/

namespace Lines

section

variable {α : Type} (sep : α)

def Closed (text : List α) : Prop := ∀ last ∈ text.getLast?, last = sep

theorem closed_nil : Closed sep [] := nofun

theorem closed_concat (text : List α) : Closed sep (text ++ [sep]) := by
  intro last hlast
  rw [List.getLast?_concat] at hlast
  exact (Option.some.inj hlast).symm

variable {text line : List α} {lines : List (List α)}

theorem Closed.tail {c : α} (h : Closed sep (c :: text)) : Closed sep text := by
  cases text with
  | nil => exact closed_nil sep
  | cons d text =>
    intro last hlast
    apply h
    rw [List.getLast?_cons_cons]
    exact hlast

/-- Lines as they are cut: only the last one may have no separator. -/
def Lined : List (List α) → Prop
  | [] => True
  | line :: lines => line ≠ [] ∧ sep ∉ line.dropLast ∧
      (lines ≠ [] → line.getLast? = some sep) ∧ Lined lines

theorem Lined.of_append {lines' : List (List α)} (h : Lined sep (lines ++ lines')) :
    Lined sep lines := by
  induction lines with
  | nil => trivial
  | cons line lines ih =>
    obtain ⟨hne, hsep, hlast, hlines⟩ := h
    apply And.intro hne
    apply And.intro hsep
    apply And.intro _ (ih hlines)
    intro hlines'
    exact hlast fun hnil => hlines' (List.append_eq_nil_iff.mp hnil).1

theorem eq_concat (h : line.getLast? = some sep) :
    line = line.dropLast ++ [sep] := by
  obtain ⟨body, rfl⟩ := List.getLast?_eq_some_iff.mp h
  rw [List.dropLast_concat]

theorem Lined.of_append_right {lines' : List (List α)} (h : Lined sep (lines ++ lines')) :
    Lined sep lines' := by
  induction lines with
  | nil => exact h
  | cons line lines ih => exact ih h.2.2.2

theorem not_mem_of_open (hsep : sep ∉ line.dropLast)
    (hlast : line.getLast? ≠ some sep) : sep ∉ line := by
  by_cases hne : line = []
  · rw [hne]
    exact List.not_mem_nil
  · rw [← List.dropLast_append_getLast hne]
    intro hmem
    cases List.mem_append.mp hmem with
    | inl hmem => exact hsep hmem
    | inr hmem =>
      apply hlast
      rw [List.getLast?_eq_some_getLast hne, List.mem_singleton.mp hmem]

end

variable {α : Type} [DecidableEq α] (sep : α)

/-- The lines, each with its separator. The last one may have none. -/
@[simp] def split : List α → List (List α)
  | [] => []
  | c :: text =>
    if c = sep then [c] :: split text
    else match split text with
      | [] => [[c]]
      | line :: lines => (c :: line) :: lines

theorem split_sep (text : List α) : split sep (sep :: text) = [sep] :: split sep text := by
  rw [split, if_pos rfl]

theorem split_nil_of_eq_nil (h : split sep text = []) : text = [] := by
  cases text with
  | nil => rfl
  | cons c text =>
    rw [split] at h
    split at h
    · exact absurd h (List.cons_ne_nil _ _)
    · split at h
      · exact absurd h (List.cons_ne_nil _ _)
      · exact absurd h (List.cons_ne_nil _ _)

theorem split_cons (h : text ≠ []) :
    ∃ line lines, split sep text = line :: lines := by
  cases hsplit : split sep text with
  | nil => exact absurd (split_nil_of_eq_nil sep hsplit) h
  | cons line lines => exact ⟨line, lines, rfl⟩

/-- What comes before the first separator belongs to the first line. -/
theorem split_append_open {start : List α} (hstart : sep ∉ start)
    (h : split sep text = line :: lines) : split sep (start ++ text) = (start ++ line) :: lines := by
  induction start with
  | nil => exact h
  | cons c start ih =>
    have hc : c ≠ sep := fun hc => hstart (hc ▸ List.mem_cons_self)
    rw [List.cons_append, split, if_neg hc, ih fun hmem => hstart (List.mem_cons_of_mem c hmem)]
    rfl

theorem split_open {start : List α} (hstart : sep ∉ start) (hne : start ≠ []) :
    split sep start = [start] := by
  induction start with
  | nil => exact absurd rfl hne
  | cons c start ih =>
    have hc : c ≠ sep := fun hc => hstart (hc ▸ List.mem_cons_self)
    rw [split, if_neg hc]
    by_cases hnil : start = []
    · rw [hnil]
      rfl
    · rw [ih (fun hmem => hstart (List.mem_cons_of_mem c hmem)) hnil]

theorem split_line {body : List α} (h : sep ∉ body) (text : List α) :
    split sep (body ++ sep :: text) = (body ++ [sep]) :: split sep text :=
  split_append_open sep h (split_sep sep text)

theorem split_append (h : Closed sep text) (rest : List α) :
    split sep (text ++ rest) = split sep text ++ split sep rest := by
  induction text with
  | nil => rfl
  | cons c text ih =>
    rw [List.cons_append, split, split]
    split
    · rw [ih h.tail]
      rfl
    · next hc =>
      have hne : text ≠ [] := by
        rintro rfl
        exact hc (h c rfl)
      obtain ⟨line, lines, hsplit⟩ := split_cons sep hne
      rw [ih h.tail, hsplit]
      rfl

theorem Closed.mem_split (h : Closed sep text) (hline : line ∈ split sep text) :
    line.getLast? = some sep := by
  induction text generalizing line with
  | nil => exact absurd hline List.not_mem_nil
  | cons c text ih =>
    rw [split] at hline
    split at hline
    · next hc =>
      cases hline with
      | head => exact congrArg some hc
      | tail _ hline => exact ih h.tail hline
    · next hc =>
      have hne : text ≠ [] := by
        rintro rfl
        exact hc (h c rfl)
      obtain ⟨first, lines, hsplit⟩ := split_cons sep hne
      rw [hsplit] at hline
      cases hline with
      | head =>
        have hfirst := ih h.tail (hsplit ▸ List.mem_cons_self)
        rw [List.getLast?_cons, hfirst]
        rfl
      | tail _ hline => exact ih h.tail (hsplit ▸ List.mem_cons_of_mem _ hline)

def ended (text : List α) : List α := text.rdropWhile (· ≠ sep)

def openLine (text : List α) : List α := text.rtakeWhile (· ≠ sep)

theorem ended_append_openLine (text : List α) : ended sep text ++ openLine sep text = text :=
  List.rdropWhile_append_rtakeWhile

theorem closed_ended (text : List α) : Closed sep (ended sep text) := by
  intro last hlast
  have hne : ended sep text ≠ [] := by
    intro hnil
    rw [hnil] at hlast
    cases hlast
  have hnot := List.rdropWhile_last_not _ _ hne
  rw [List.getLast?_eq_some_getLast hne] at hlast
  cases hlast
  by_contra hsep
  exact hnot (decide_eq_true hsep)

theorem not_mem_openLine (text : List α) : sep ∉ openLine sep text := by
  intro h
  have hne := List.mem_rtakeWhile_imp (p := fun c => decide (c ≠ sep)) h
  exact of_decide_eq_true hne rfl

theorem lined_split (text : List α) : Lined sep (split sep text) := by
  induction text with
  | nil => trivial
  | cons c text ih =>
    rw [split]
    split
    · next hc =>
      exact ⟨List.cons_ne_nil _ _, List.not_mem_nil, fun _ => congrArg some hc, ih⟩
    · next hc =>
      split
      · exact ⟨List.cons_ne_nil _ _, List.not_mem_nil, fun h => absurd rfl h, trivial⟩
      · next line lines hsplit =>
        rw [hsplit] at ih
        obtain ⟨hne, hsep, hlast, hlines⟩ := ih
        apply And.intro (List.cons_ne_nil _ _)
        apply And.intro
        · rw [List.dropLast_cons_of_ne_nil hne]
          intro hmem
          cases hmem with
          | head => exact hc rfl
          | tail _ hmem => exact hsep hmem
        · apply And.intro _ hlines
          intro hlines'
          rw [List.getLast?_cons, hlast hlines']
          rfl

theorem split_ended (hsep : sep ∉ line.dropLast) (hlast : line.getLast? = some sep)
    (text : List α) : split sep (line ++ text) = line :: split sep text := by
  have hline := split_line sep hsep text
  rw [← List.singleton_append, ← List.append_assoc, ← eq_concat sep hlast] at hline
  exact hline

theorem split_singleton (hne : line ≠ []) (hsep : sep ∉ line.dropLast) :
    split sep line = [line] := by
  by_cases hlast : line.getLast? = some sep
  · have hline := split_ended sep hsep hlast []
    rw [List.append_nil] at hline
    exact hline
  · exact split_open sep (not_mem_of_open sep hsep hlast) hne

theorem Lined.split_flatten (h : Lined sep lines) :
    split sep lines.flatten = lines := by
  induction lines with
  | nil => rfl
  | cons line lines ih =>
    obtain ⟨hne, hsep, hlast, hlines⟩ := h
    rw [List.flatten_cons]
    by_cases hnil : lines = []
    · rw [hnil, List.flatten_nil, List.append_nil]
      exact split_singleton sep hne hsep
    · rw [split_ended sep hsep (hlast hnil), ih hlines]

/-! Pieces that may be no lines. -/

theorem split_head (c : α) (text : List α) : ∃ rest lines, split sep (c :: text) = (c :: rest) :: lines := by
  rw [split]
  split
  · exact ⟨[], _, rfl⟩
  · split
    · exact ⟨[], _, rfl⟩
    · exact ⟨_, _, rfl⟩

theorem exists_piece {pieces : List (List α)} (h : ∀ piece ∈ pieces, sep ∉ piece.dropLast)
    (hline : line ∈ split sep pieces.flatten) : ∃ piece ∈ pieces, piece <+: line := by
  induction pieces generalizing line with
  | nil => cases hline
  | cons piece pieces ih =>
    have hrest {line : List α} (hline : line ∈ split sep pieces.flatten) :
        ∃ piece' ∈ piece :: pieces, piece' <+: line := by
      obtain ⟨piece', hpiece, hbegins⟩ :=
        ih (fun piece hpiece => h piece (List.mem_cons_of_mem _ hpiece)) hline
      exact ⟨piece', List.mem_cons_of_mem _ hpiece, hbegins⟩
    have hsep := h piece List.mem_cons_self
    rw [List.flatten_cons] at hline
    by_cases hlast : piece.getLast? = some sep
    · rw [split_ended sep hsep hlast] at hline
      cases hline with
      | head => exact ⟨piece, List.mem_cons_self, List.prefix_refl _⟩
      | tail _ hline => exact hrest hline
    · have hopen := not_mem_of_open sep hsep hlast
      cases hsplit : split sep pieces.flatten with
      | nil =>
        rw [split_nil_of_eq_nil sep hsplit, List.append_nil] at hline
        by_cases hne : piece = []
        · rw [hne] at hline
          cases hline
        · rw [split_open sep hopen hne] at hline
          cases List.mem_singleton.mp hline
          exact ⟨piece, List.mem_cons_self, List.prefix_refl _⟩
      | cons first lines =>
        rw [split_append_open sep hopen hsplit] at hline
        cases hline with
        | head => exact ⟨piece, List.mem_cons_self, List.prefix_append _ _⟩
        | tail _ hline => exact hrest (hsplit ▸ List.mem_cons_of_mem _ hline)

theorem exists_merged {pieces : List (List α)}
    (h : ∀ piece ∈ pieces, piece ≠ [] ∧ sep ∉ piece.dropLast) (hnot : ¬ Lined sep pieces) :
    ∃ piece ∈ pieces, ∃ next ∈ pieces, ∃ c ∈ next.head?, sep ∉ piece ∧
      ∃ line ∈ split sep pieces.flatten, (piece ++ [c]) <:+: line := by
  induction pieces with
  | nil => exact absurd trivial hnot
  | cons piece pieces ih =>
    obtain ⟨hne, hsep⟩ := h piece List.mem_cons_self
    have htail := fun piece hpiece => h piece (List.mem_cons_of_mem _ hpiece)
    rw [List.flatten_cons]
    by_cases hlined : Lined sep pieces
    · have hopen : pieces ≠ [] ∧ piece.getLast? ≠ some sep := by
        by_contra hclosed
        apply hnot
        apply And.intro hne
        apply And.intro hsep
        apply And.intro _ hlined
        intro hpieces
        by_contra hlast
        exact hclosed ⟨hpieces, hlast⟩
      obtain ⟨next, rest, rfl⟩ := List.exists_cons_of_ne_nil hopen.1
      obtain ⟨c, next, rfl⟩ := List.exists_cons_of_ne_nil (htail next List.mem_cons_self).1
      have hpiece := not_mem_of_open sep hsep hopen.2
      obtain ⟨first, lines, hsplit⟩ := split_head sep c (next ++ rest.flatten)
      have hwhole := split_append_open sep hpiece hsplit
      apply Exists.intro piece
      apply And.intro List.mem_cons_self
      apply Exists.intro (c :: next)
      apply And.intro (List.mem_cons_of_mem _ List.mem_cons_self)
      apply Exists.intro c
      apply And.intro rfl
      apply And.intro hpiece
      apply Exists.intro (piece ++ c :: first)
      constructor
      · rw [List.flatten_cons, List.cons_append, hwhole]
        exact List.mem_cons_self
      · exact ⟨[], first, by rw [List.nil_append, List.append_assoc, List.singleton_append]⟩
    · obtain ⟨merged, hmerged, next, hnext, c, hc, hopen, line, hline, hwithin⟩ := ih htail hlined
      apply Exists.intro merged
      apply And.intro (List.mem_cons_of_mem _ hmerged)
      apply Exists.intro next
      apply And.intro (List.mem_cons_of_mem _ hnext)
      apply Exists.intro c
      apply And.intro hc
      apply And.intro hopen
      by_cases hlast : piece.getLast? = some sep
      · rw [split_ended sep hsep hlast]
        exact ⟨line, List.mem_cons_of_mem _ hline, hwithin⟩
      · obtain ⟨first, lines, hsplit⟩ := List.exists_cons_of_ne_nil (List.ne_nil_of_mem hline)
        rw [split_append_open sep (not_mem_of_open sep hsep hlast) hsplit]
        rw [hsplit] at hline
        cases hline with
        | head =>
          exact ⟨piece ++ line, List.mem_cons_self, hwithin.trans (List.suffix_append _ _).isInfix⟩
        | tail _ hline => exact ⟨line, List.mem_cons_of_mem _ hline, hwithin⟩

end Lines
