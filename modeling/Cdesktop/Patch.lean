import Mathlib.Data.List.TakeWhile

/-! Patches of texts, which are lists of lines, and how a patch is written and read. -/

namespace Patch
set_option autoImplicit true

inductive Tag where
  | equal
  | delete
  | insert
deriving DecidableEq

/-- A line of a hunk. -/
structure Change where
  tag : Tag
  value : List Char

/-- The starts count from zero. -/
structure Hunk where
  oldStart : Nat
  newStart : Nat
  changes : List Change

/-- The lines that the hunk takes. -/
def Hunk.oldLen (h : Hunk) : Nat := (h.changes.filter (·.tag ≠ .insert)).length

def Hunk.newLen (h : Hunk) : Nat := (h.changes.filter (·.tag ≠ .delete)).length

/-- The new lines, and the old ones behind the changes. -/
@[simp] def applyChanges : List Change → List (List Char) → Option (List (List Char) × List (List Char))
  | [], old => some ([], old)
  | ⟨.insert, value⟩ :: changes, old =>
    (applyChanges changes old).map fun (new, rest) => (value :: new, rest)
  | ⟨.equal, value⟩ :: changes, line :: old =>
    if line = value then (applyChanges changes old).map fun (new, rest) => (value :: new, rest)
    else none
  | ⟨.delete, value⟩ :: changes, line :: old =>
    if line = value then applyChanges changes old else none
  | ⟨.equal, _⟩ :: _, [] => none
  | ⟨.delete, _⟩ :: _, [] => none

/-- The hunks in order, each at its place. The position is that of the first line of `old`. -/
def applyHunks (position : Nat) : List Hunk → List (List Char) → Option (List (List Char))
  | [], old => some old
  | hunk :: hunks, old =>
    if position ≤ hunk.oldStart ∧ hunk.oldStart - position ≤ old.length then do
      let (new, rest) ← applyChanges hunk.changes (old.drop (hunk.oldStart - position))
      let result ← applyHunks (hunk.oldStart + hunk.oldLen) hunks rest
      return old.take (hunk.oldStart - position) ++ new ++ result
    else none

theorem applyChanges_mem (h : applyChanges changes old = some (new, rest)) :
    (∀ change ∈ changes, change.value ∈ old ∨ change.value ∈ new) ∧ ∀ line ∈ rest, line ∈ old := by
  induction changes, old using applyChanges.induct generalizing new rest with
  | case1 old =>
    cases h
    exact ⟨nofun, fun _ hline => hline⟩
  | case2 value changes old ih =>
    rw [applyChanges] at h
    obtain ⟨⟨new, rest⟩, h, heq⟩ := Option.map_eq_some_iff.mp h
    cases heq
    obtain ⟨hchanges, hrest⟩ := ih h
    apply And.intro _ hrest
    intro change hchange
    cases hchange with
    | head => exact Or.inr List.mem_cons_self
    | tail _ hchange => exact (hchanges change hchange).imp_right (List.mem_cons_of_mem _)
  | case3 value changes old ih =>
    rw [applyChanges, if_pos rfl] at h
    obtain ⟨⟨new, rest⟩, h, heq⟩ := Option.map_eq_some_iff.mp h
    cases heq
    obtain ⟨hchanges, hrest⟩ := ih h
    apply And.intro _ fun line hline => List.mem_cons_of_mem _ (hrest line hline)
    intro change hchange
    cases hchange with
    | head => exact Or.inr List.mem_cons_self
    | tail _ hchange =>
      exact (hchanges change hchange).imp (List.mem_cons_of_mem _) (List.mem_cons_of_mem _)
  | case4 value changes line old hline =>
    rw [applyChanges, if_neg hline] at h
    cases h
  | case5 value changes old ih =>
    rw [applyChanges, if_pos rfl] at h
    obtain ⟨hchanges, hrest⟩ := ih h
    apply And.intro _ fun line hline => List.mem_cons_of_mem _ (hrest line hline)
    intro change hchange
    cases hchange with
    | head => exact Or.inl List.mem_cons_self
    | tail _ hchange => exact (hchanges change hchange).imp_left (List.mem_cons_of_mem _)
  | case6 value changes line old hline =>
    rw [applyChanges, if_neg hline] at h
    cases h
  | case7 => cases h
  | case8 => cases h

theorem applyHunks_cons (h : applyHunks position (hunk :: hunks) old = some result) :
    ∃ new rest result', applyChanges hunk.changes (old.drop (hunk.oldStart - position)) =
        some (new, rest) ∧
      applyHunks (hunk.oldStart + hunk.oldLen) hunks rest = some result' ∧
      result = old.take (hunk.oldStart - position) ++ new ++ result' := by
  rw [applyHunks] at h
  split at h
  · obtain ⟨⟨new, rest⟩, hchanges, h⟩ := Option.bind_eq_some_iff.mp h
    obtain ⟨result', hhunks, h⟩ := Option.bind_eq_some_iff.mp h
    exact ⟨new, rest, result', hchanges, hhunks, (Option.some.inj h).symm⟩
  · cases h

/-- Each line of a patch is an old line or a new one. -/
theorem applyHunks_mem (h : applyHunks position hunks old = some new) :
    ∀ hunk ∈ hunks, ∀ change ∈ hunk.changes, change.value ∈ old ∨ change.value ∈ new := by
  induction hunks generalizing position old new with
  | nil => exact nofun
  | cons first hunks ih =>
    obtain ⟨new', rest, result', hchanges, hhunks, rfl⟩ := applyHunks_cons h
    obtain ⟨hmem, hrest⟩ := applyChanges_mem hchanges
    intro hunk hhunk change hchange
    cases hhunk with
    | head =>
      cases hmem change hchange with
      | inl hold => exact Or.inl (List.mem_of_mem_drop hold)
      | inr hnew =>
        exact Or.inr (List.mem_append_left _ (List.mem_append_right _ hnew))
    | tail _ hhunk =>
      cases ih hhunks hunk hhunk change hchange with
      | inl hold => exact Or.inl (List.mem_of_mem_drop (hrest _ hold))
      | inr hnew => exact Or.inr (List.mem_append_right _ hnew)

theorem applyChanges_delete (lines : List (List Char)) (changes : List Change)
    (old : List (List Char)) :
    applyChanges (lines.map (⟨.delete, ·⟩) ++ changes) (lines ++ old) = applyChanges changes old := by
  induction lines with
  | nil => rfl
  | cons line lines ih =>
    rw [List.map_cons, List.cons_append, List.cons_append, applyChanges, if_pos rfl, ih]

theorem applyChanges_insert (lines old : List (List Char)) :
    applyChanges (lines.map (⟨.insert, ·⟩)) old = some (lines, old) := by
  induction lines with
  | nil => rfl
  | cons line lines ih =>
    rw [List.map_cons, applyChanges, ih]
    rfl

def Change.map (f : List Char → List Char) (c : Change) : Change := ⟨c.tag, f c.value⟩

def Hunk.map (f : List Char → List Char) (h : Hunk) : Hunk :=
  { h with changes := h.changes.map (Change.map f) }

theorem Hunk.map_oldLen (f : List Char → List Char) (h : Hunk) : (h.map f).oldLen = h.oldLen := by
  rw [Hunk.oldLen, Hunk.oldLen, Hunk.map, List.filter_map, List.length_map]
  rfl

theorem Hunk.map_newLen (f : List Char → List Char) (h : Hunk) : (h.map f).newLen = h.newLen := by
  rw [Hunk.newLen, Hunk.newLen, Hunk.map, List.filter_map, List.length_map]
  rfl

theorem applyChanges_map (h : applyChanges changes old = some (new, rest))
    (hmap : applyChanges (changes.map (Change.map f)) old = some (new', rest')) :
    rest' = rest ∧ new'.length = new.length ∧
      (new' = new → ∀ change ∈ changes, f change.value = change.value) := by
  induction changes, old using applyChanges.induct generalizing new rest new' rest' with
  | case1 old =>
    cases h
    cases hmap
    exact ⟨rfl, rfl, fun _ => nofun⟩
  | case2 value changes old ih =>
    rw [applyChanges] at h
    rw [List.map_cons, Change.map, applyChanges] at hmap
    obtain ⟨⟨new, rest⟩, h, heq⟩ := Option.map_eq_some_iff.mp h
    cases heq
    obtain ⟨⟨new', rest'⟩, hmap, heq⟩ := Option.map_eq_some_iff.mp hmap
    cases heq
    obtain ⟨hrest, hlength, hsame⟩ := ih h hmap
    apply And.intro hrest
    apply And.intro (congrArg Nat.succ hlength)
    intro heq change hchange
    obtain ⟨hvalue, hnew⟩ := List.cons.inj heq
    cases hchange with
    | head => exact hvalue
    | tail _ hchange => exact hsame hnew change hchange
  | case3 value changes old ih =>
    rw [applyChanges, if_pos rfl] at h
    rw [List.map_cons, Change.map, applyChanges] at hmap
    split at hmap
    · next hvalue =>
      obtain ⟨⟨new, rest⟩, h, heq⟩ := Option.map_eq_some_iff.mp h
      cases heq
      obtain ⟨⟨new', rest'⟩, hmap, heq⟩ := Option.map_eq_some_iff.mp hmap
      cases heq
      obtain ⟨hrest, hlength, hsame⟩ := ih h hmap
      apply And.intro hrest
      apply And.intro (congrArg Nat.succ hlength)
      intro heq change hchange
      obtain ⟨-, hnew⟩ := List.cons.inj heq
      cases hchange with
      | head => exact hvalue.symm
      | tail _ hchange => exact hsame hnew change hchange
    · cases hmap
  | case4 value changes line old hline =>
    rw [applyChanges, if_neg hline] at h
    cases h
  | case5 value changes old ih =>
    rw [applyChanges, if_pos rfl] at h
    rw [List.map_cons, Change.map, applyChanges] at hmap
    split at hmap
    · next hvalue =>
      obtain ⟨hrest, hlength, hsame⟩ := ih h hmap
      apply And.intro hrest
      apply And.intro hlength
      intro heq change hchange
      cases hchange with
      | head => exact hvalue.symm
      | tail _ hchange => exact hsame heq change hchange
    · cases hmap
  | case6 value changes line old hline =>
    rw [applyChanges, if_neg hline] at h
    cases h
  | case7 => cases h
  | case8 => cases h

/-- Of two patches that differ in their lines at most only one makes the new text of the old one. -/
theorem applyHunks_map (h : applyHunks position hunks old = some new)
    (hmap : applyHunks position (hunks.map (Hunk.map f)) old = some new) :
    ∀ hunk ∈ hunks, ∀ change ∈ hunk.changes, f change.value = change.value := by
  induction hunks generalizing position old new with
  | nil => exact nofun
  | cons first hunks ih =>
    obtain ⟨new₁, rest₁, result₁, hchanges₁, hhunks₁, rfl⟩ := applyHunks_cons h
    obtain ⟨new₂, rest₂, result₂, hchanges₂, hhunks₂, hresult⟩ := applyHunks_cons hmap
    obtain ⟨rfl, hlength, hsame⟩ := applyChanges_map hchanges₁ hchanges₂
    have hstart : (first.map f).oldStart = first.oldStart := rfl
    rw [hstart] at hresult
    obtain ⟨hleft, hright⟩ := List.append_inj hresult
      (by rw [List.length_append, List.length_append, hlength])
    rw [Hunk.map_oldLen, hstart, ← hright] at hhunks₂
    intro hunk hhunk
    cases hhunk with
    | head => exact hsame (List.append_cancel_left hleft).symm
    | tail _ hhunk => exact ih hhunks₁ hhunks₂ hunk hhunk

def printRange (start len : Nat) : List Char :=
  if len = 1 then Nat.toDigits 10 (start + 1)
  else Nat.toDigits 10 (if len = 0 then start else start + 1) ++ ',' :: Nat.toDigits 10 len

def Hunk.header (h : Hunk) : List Char :=
  '@' :: '@' :: ' ' :: '-' :: (printRange h.oldStart h.oldLen ++
    ' ' :: '+' :: (printRange h.newStart h.newLen ++ [' ', '@', '@']))

def readNat (text : List Char) : Option (Nat × List Char) :=
  let digits := text.takeWhile Char.isDigit
  if digits = [] then none
  else some (Nat.ofDigitChars 10 digits 0, text.dropWhile Char.isDigit)

/-- A start and a length, which is one where there is none. -/
def readRange (text : List Char) : Option ((Nat × Nat) × List Char) := do
  let (start, rest) ← readNat text
  match rest with
  | ',' :: rest =>
    let (len, rest) ← readNat rest
    return ((if len = 0 then start else start - 1, len), rest)
  | _ => return ((start - 1, 1), rest)

def readHeader : List Char → Option ((Nat × Nat) × (Nat × Nat))
  | '@' :: '@' :: ' ' :: '-' :: text => do
    let (old, rest) ← readRange text
    match rest with
    | ' ' :: '+' :: text =>
      let (new, rest) ← readRange text
      match rest with
      | ' ' :: '@' :: '@' :: _ => return (old, new)
      | _ => none
    | _ => none
  | _ => none

theorem readNat_toDigits (n : Nat) (hc : c.isDigit = false) (rest : List Char) :
    readNat (Nat.toDigits 10 n ++ c :: rest) = some (n, c :: rest) := by
  have hdigits : ∀ d ∈ Nat.toDigits 10 n, d.isDigit := fun d hd =>
    Nat.isDigit_of_mem_toDigits (by decide) (by decide) hd
  have hne : Nat.toDigits 10 n ≠ [] := Nat.toDigits_ne_nil
  have htake : (Nat.toDigits 10 n ++ c :: rest).takeWhile Char.isDigit = Nat.toDigits 10 n := by
    rw [List.takeWhile_append_of_pos hdigits, List.takeWhile_cons, hc]
    exact List.append_nil _
  have hdrop : (Nat.toDigits 10 n ++ c :: rest).dropWhile Char.isDigit = c :: rest := by
    rw [List.dropWhile_append_of_pos hdigits, List.dropWhile_cons, hc]
    rfl
  rw [readNat, htake, hdrop, if_neg hne, Nat.ofDigitChars_ten_toDigits]

theorem readRange_print (start len : Nat) (rest : List Char) :
    readRange (printRange start len ++ ' ' :: rest) = some ((start, len), ' ' :: rest) := by
  rw [readRange, printRange]
  split
  · next hlen =>
    rw [readNat_toDigits _ rfl, hlen]
    rfl
  · rw [List.append_assoc, List.cons_append, readNat_toDigits _ rfl]
    change (readNat _).bind _ = _
    rw [readNat_toDigits _ rfl]
    by_cases hlen : len = 0
    · rw [hlen]
      rfl
    · change some ((if len = 0 then _ else _, len), _) = _
      rw [if_neg hlen, if_neg hlen]
      rfl

theorem readHeader_header (h : Hunk) (rest : List Char) :
    readHeader (h.header ++ rest) = some ((h.oldStart, h.oldLen), (h.newStart, h.newLen)) := by
  rw [Hunk.header]
  simp only [List.cons_append, List.append_assoc]
  rw [readHeader, readRange_print]
  change (readRange _).bind _ = _
  rw [readRange_print]
  rfl

def Tag.char : Tag → Char
  | .equal => ' '
  | .delete => '-'
  | .insert => '+'

def Change.line (c : Change) : List Char := c.tag.char :: c.value

def readChange : List Char → Option Change
  | ' ' :: value => some ⟨.equal, value⟩
  | '-' :: value => some ⟨.delete, value⟩
  | '+' :: value => some ⟨.insert, value⟩
  | _ => none

theorem readChange_line (c : Change) : readChange c.line = some c := by
  obtain ⟨tag, value⟩ := c
  cases tag <;> rfl

/-- A hunk of which the header gives the right numbers of lines. -/
def readHunk (header : List Char) (body : List (List Char)) : Option Hunk := do
  let ((oldStart, oldLen), (newStart, newLen)) ← readHeader header
  let changes ← body.mapM readChange
  let hunk : Hunk := { oldStart, newStart, changes }
  if hunk.oldLen = oldLen ∧ hunk.newLen = newLen then return hunk else none

theorem mapM_readChange (changes : List Change) :
    (changes.map Change.line).mapM readChange = some changes := by
  induction changes with
  | nil => rfl
  | cons change changes ih =>
    rw [List.map_cons, List.mapM_cons, readChange_line, ih]
    rfl

theorem readChange_eq (h : readChange line = some change) : line = change.line := by
  rw [readChange.eq_def] at h
  split at h
  · cases h
    rfl
  · cases h
    rfl
  · cases h
    rfl
  · cases h

theorem mapM_mem {α β : Type} {f : α → Option β} {xs : List α} {ys : List β}
    (h : xs.mapM f = some ys) : ∀ x ∈ xs, ∃ y ∈ ys, f x = some y := by
  induction xs generalizing ys with
  | nil => exact nofun
  | cons first xs ih =>
    rw [List.mapM_cons] at h
    obtain ⟨y, hfirst, h⟩ := Option.bind_eq_some_iff.mp h
    obtain ⟨ys', hxs, h⟩ := Option.bind_eq_some_iff.mp h
    cases h
    intro x hx
    cases hx with
    | head => exact ⟨y, List.mem_cons_self, hfirst⟩
    | tail _ hx =>
      obtain ⟨y', hmem, hread⟩ := ih hxs x hx
      exact ⟨y', List.mem_cons_of_mem _ hmem, hread⟩

/-- Each line of a hunk is read as one of its changes. -/
theorem readHunk_mem (h : readHunk header body = some hunk) :
    ∀ line ∈ body, ∃ change ∈ hunk.changes, line = change.line := by
  obtain ⟨ranges, -, h⟩ := Option.bind_eq_some_iff.mp h
  obtain ⟨changes, hchanges, h⟩ := Option.bind_eq_some_iff.mp h
  dsimp only at h
  split at h
  · cases h
    intro line hline
    obtain ⟨change, hchange, hread⟩ := mapM_mem hchanges line hline
    exact ⟨change, hchange, readChange_eq hread⟩
  · cases h

theorem readHunk_print (h : Hunk) (rest : List Char) :
    readHunk (h.header ++ rest) (h.changes.map Change.line) = some h := by
  rw [readHunk, readHeader_header]
  change ((h.changes.map Change.line).mapM readChange).bind _ = _
  rw [mapM_readChange]
  exact if_pos ⟨rfl, rfl⟩

end Patch
