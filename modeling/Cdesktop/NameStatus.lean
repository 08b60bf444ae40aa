import Cdesktop.TrustedKeys
import Mathlib.Data.List.DropRight

/-! The entries of `git diff --name-status`, as they are printed and as they are parsed. Texts are
lists of characters. -/

namespace Cdesktop.NameStatus
open TrustedKeys (isWhiteSpace)
set_option autoImplicit true

abbrev Text := List Char

inductive ChangeType where
  | added
  | modified
  | deleted
  | renamed
  | copied
  | typeChanged
  | unmerged
  | unknown (code : Char)
deriving DecidableEq

structure StatusDiffEntry where
  change : ChangeType
  path : Text
  oldPath : Option Text
deriving DecidableEq

def stripCarriageReturn (line : Text) : Text :=
  if line.getLast? = some '\r' then line.dropLast else line

/-- `lines`, after the characters of a line that is not ended yet. -/
def linesFrom (line : Text) : Text → List Text
  | [] => if line = [] then [] else [line]
  | c :: rest =>
    if c = '\n' then stripCarriageReturn line :: linesFrom [] rest
    else linesFrom (line ++ [c]) rest

def lines (output : Text) : List Text := linesFrom [] output

def splitTab : Text → Text × List Text
  | [] => ([], [])
  | c :: rest =>
    let (part, parts) := splitTab rest
    if c = '\t' then ([], part :: parts) else (c :: part, parts)

def trimEnd (line : Text) : Text := line.rdropWhile isWhiteSpace

def changeType (code : Text) : ChangeType :=
  match code.head?.getD '?' with
  | 'A' => .added
  | 'M' => .modified
  | 'D' => .deleted
  | 'R' => .renamed
  | 'C' => .copied
  | 'T' => .typeChanged
  | 'U' => .unmerged
  | other => .unknown other

def parsePaths (change : ChangeType) (parts : List Text) : Option StatusDiffEntry :=
  if change = .renamed ∨ change = .copied then
    match parts with
    | old :: new :: _ => some ⟨change, new, some old⟩
    | _ => none
  else
    match parts with
    | path :: _ => some ⟨change, path, none⟩
    | [] => none

def parseLine (line : Text) : Option StatusDiffEntry :=
  let line := trimEnd line
  if line = [] then none
  else parsePaths (changeType (splitTab line).1) (splitTab line).2

def parseNameStatus (output : Text) : List StatusDiffEntry := (lines output).filterMap parseLine

/-- The names of these characters are not printed as they are. -/
def isQuoted (c : Char) : Bool := c.val < 0x20 || c = '"' || c = '\\' || c.val = 0x7F

def isGraphic (c : Char) : Bool := 0x21 ≤ c.val && c.val ≤ 0x7E

/-- How git prints what is not under the source: the escape of a character that is quoted, and the
score of a rename. -/
structure Git where
  escape : Char → Text
  score : Nat → Text
  escape_ne_nil : ∀ c, isQuoted c = true → escape c ≠ []
  escape_graphic : ∀ c, isQuoted c = true → ∀ x ∈ escape c, isGraphic x = true
  score_graphic : ∀ n, ∀ x ∈ score n, isGraphic x = true

inductive Change where
  | added (path : Text)
  | modified (path : Text)
  | deleted (path : Text)
  | typeChanged (path : Text)
  | renamed (score : Nat) (old new : Text)
  | copied (score : Nat) (old new : Text)

def Change.entry : Change → StatusDiffEntry
  | .added path => ⟨.added, path, none⟩
  | .modified path => ⟨.modified, path, none⟩
  | .deleted path => ⟨.deleted, path, none⟩
  | .typeChanged path => ⟨.typeChanged, path, none⟩
  | .renamed _ old new => ⟨.renamed, new, some old⟩
  | .copied _ old new => ⟨.copied, new, some old⟩

namespace Git
variable (git : Git)

def printName (name : Text) : Text :=
  if name.any isQuoted then
    '"' :: name.flatMap (fun c => if isQuoted c then git.escape c else [c]) ++ ['"']
  else name

def fields : Change → Text × List Text
  | .added path => (['A'], [path])
  | .modified path => (['M'], [path])
  | .deleted path => (['D'], [path])
  | .typeChanged path => (['T'], [path])
  | .renamed score old new => ('R' :: git.score score, [old, new])
  | .copied score old new => ('C' :: git.score score, [old, new])

def printLine (change : Change) : Text :=
  (git.fields change).1 ++ (git.fields change).2.flatMap fun name => '\t' :: git.printName name

def print (changes : List Change) : Text := changes.flatMap fun change => git.printLine change ++ ['\n']

end Git

def Unquoted (name : Text) : Prop := ∀ c ∈ name, isQuoted c = false

/-- The last character is there, and is not white space. -/
def EndsVisibly (name : Text) : Prop := ∃ c, name.getLast? = some c ∧ isWhiteSpace c = false

/-- No name is quoted, and the last of the line does not end in white space. -/
def Change.Plain : Change → Prop
  | .added path | .modified path | .deleted path | .typeChanged path =>
    Unquoted path ∧ EndsVisibly path
  | .renamed _ old new | .copied _ old new => Unquoted old ∧ Unquoted new ∧ EndsVisibly new

def Tidy (t : Text) : Prop := ∀ c ∈ t, 0x20 ≤ c.toNat

theorem Tidy.append (h : Tidy t) (h' : Tidy u) : Tidy (t ++ u) := by
  intro c hc
  rcases List.mem_append.1 hc with hc | hc
  · exact h c hc
  · exact h' c hc

theorem Tidy.ne (h : Tidy t) (hc : c ∈ t) (hcontrol : d.toNat < 0x20) : c ≠ d := by
  rintro rfl
  exact absurd (h c hc) (Nat.not_le_of_lt hcontrol)

theorem isGraphic_iff : isGraphic c = true ↔ 0x21 ≤ c.toNat ∧ c.toNat ≤ 0x7E := by
  rw [isGraphic, Bool.and_eq_true, decide_eq_true_iff, decide_eq_true_iff, UInt32.le_iff_toNat_le,
    UInt32.le_iff_toNat_le]
  rfl

theorem isWhiteSpace_graphic (h : isGraphic c = true) : isWhiteSpace c = false := by
  rw [isGraphic_iff] at h
  simp only [isWhiteSpace, Bool.or_eq_false_iff, Bool.and_eq_false_iff, decide_eq_false_iff_not]
  omega

theorem tidy_graphic (h : ∀ c ∈ t, isGraphic c = true) : Tidy t :=
  fun c hc => Nat.le_of_succ_le (isGraphic_iff.1 (h c hc)).1

theorem le_of_not_quoted (h : isQuoted c = false) : 0x20 ≤ c.toNat := by
  rw [isQuoted, Bool.or_eq_false_iff, Bool.or_eq_false_iff, Bool.or_eq_false_iff] at h
  have hval := of_decide_eq_false h.1.1.1
  rw [UInt32.lt_iff_toNat_lt] at hval
  exact Nat.le_of_not_lt hval

theorem linesFrom_append (line : Text) (h : ∀ c ∈ t, c ≠ '\n') (rest : Text) :
    linesFrom line (t ++ '\n' :: rest) = stripCarriageReturn (line ++ t) :: linesFrom [] rest := by
  induction t generalizing line with
  | nil => rw [List.nil_append, List.append_nil, linesFrom, if_pos rfl]
  | cons c t ih =>
    rw [List.cons_append, linesFrom, if_neg (h c List.mem_cons_self),
      ih (line ++ [c]) fun d hd => h d (List.mem_cons_of_mem c hd), List.append_assoc]
    rfl

theorem stripCarriageReturn_eq (h : ∀ c ∈ t, c ≠ '\r') : stripCarriageReturn t = t := by
  rw [stripCarriageReturn, if_neg]
  intro hlast
  exact h _ (List.mem_of_getLast? hlast) rfl

theorem lines_flatMap (texts : List Text) (h : ∀ t ∈ texts, ∀ c ∈ t, c ≠ '\n' ∧ c ≠ '\r') :
    lines (texts.flatMap (· ++ ['\n'])) = texts := by
  induction texts with
  | nil => rfl
  | cons t texts ih =>
    have ht := h t List.mem_cons_self
    rw [lines, List.flatMap_cons, List.append_assoc, List.singleton_append,
      linesFrom_append [] fun c hc => (ht c hc).1, List.nil_append,
      stripCarriageReturn_eq fun c hc => (ht c hc).2]
    exact congrArg (t :: ·) (ih fun u hu => h u (List.mem_cons_of_mem t hu))

theorem splitTab_tidy (h : Tidy t) : splitTab t = (t, []) := by
  induction t with
  | nil => rfl
  | cons c t ih =>
    rw [splitTab, ih fun d hd => h d (List.mem_cons_of_mem c hd)]
    exact if_neg (h.ne List.mem_cons_self (by decide))

theorem splitTab_append (h : Tidy t) (rest : Text) :
    splitTab (t ++ '\t' :: rest) = (t, (splitTab rest).1 :: (splitTab rest).2) := by
  induction t with
  | nil => rw [List.nil_append, splitTab]; exact if_pos rfl
  | cons c t ih =>
    rw [List.cons_append, splitTab, ih fun d hd => h d (List.mem_cons_of_mem c hd)]
    exact if_neg (h.ne List.mem_cons_self (by decide))

theorem trimEnd_append (t u : Text) :
    trimEnd (t ++ u) = if trimEnd u = [] then trimEnd t else t ++ trimEnd u := by
  rw [trimEnd, trimEnd, trimEnd, List.rdropWhile, List.reverse_append, List.dropWhile_append]
  by_cases hu : List.rdropWhile isWhiteSpace u = []
  · have hnil : List.dropWhile isWhiteSpace u.reverse = [] := List.reverse_eq_nil_iff.1 hu
    rw [if_pos hu, hnil]
    rfl
  · have hne : List.dropWhile isWhiteSpace u.reverse ≠ [] := fun hnil => hu (congrArg List.reverse hnil)
    rw [if_neg hu, if_neg (by rwa [List.isEmpty_iff]), List.reverse_append, List.reverse_reverse]
    rfl

theorem trimEnd_tidy (h : Tidy t) : Tidy (trimEnd t) :=
  fun c hc => h c ((List.rdropWhile_prefix isWhiteSpace t).subset hc)

theorem trimEnd_eq_self (h : EndsVisibly t) : trimEnd t = t := by
  obtain ⟨c, hc, hvisible⟩ := h
  apply List.rdropWhile_eq_self_iff.2
  intro hne
  rw [List.getLast?_eq_some_getLast hne, Option.some.injEq] at hc
  rw [hc, hvisible]
  exact Bool.false_ne_true

theorem trimEnd_tab (t u : Text) : trimEnd (t ++ '\t' :: u) =
    if trimEnd u = [] then trimEnd t else t ++ '\t' :: trimEnd u := by
  have htab : trimEnd ('\t' :: u) = if trimEnd u = [] then [] else '\t' :: trimEnd u :=
    trimEnd_append ['\t'] u
  rw [trimEnd_append, htab]
  by_cases hu : trimEnd u = []
  · rw [if_pos hu, if_pos hu, if_pos rfl]
  · rw [if_neg hu, if_neg hu, if_neg (List.cons_ne_nil _ _)]

section
variable {code u v : Text}

theorem parsePaths_one (change : ChangeType) (path : Text) : parsePaths change [path] =
    if change = .renamed ∨ change = .copied then none else some ⟨change, path, none⟩ := rfl

theorem parseLine_one (hcode : Tidy code) (hvisible : EndsVisibly code) (hu : Tidy u)
    (hchange : ¬(changeType code = .renamed ∨ changeType code = .copied)) :
    parseLine (code ++ '\t' :: u) =
      if trimEnd u = [] then none else some ⟨changeType code, trimEnd u, none⟩ := by
  rw [parseLine, trimEnd_tab, trimEnd_eq_self hvisible]
  by_cases hblank : trimEnd u = []
  · rw [if_pos hblank, if_pos hblank, splitTab_tidy hcode, parsePaths, if_neg hchange]
    exact ite_self _
  · rw [if_neg hblank, if_neg hblank, if_neg (List.append_ne_nil_of_right_ne_nil _ (List.cons_ne_nil _ _)),
      splitTab_append hcode, splitTab_tidy (trimEnd_tidy hu), parsePaths_one, if_neg hchange]

theorem parseLine_two (hcode : Tidy code) (hvisible : EndsVisibly code) (hu : Tidy u) (hv : Tidy v)
    (hchange : changeType code = .renamed ∨ changeType code = .copied) :
    parseLine (code ++ '\t' :: u ++ '\t' :: v) =
      if trimEnd v = [] then none else some ⟨changeType code, trimEnd v, some u⟩ := by
  rw [parseLine, trimEnd_tab]
  by_cases hblank : trimEnd v = []
  · rw [if_pos hblank, if_pos hblank, trimEnd_tab, trimEnd_eq_self hvisible]
    by_cases hblank' : trimEnd u = []
    · rw [if_pos hblank', splitTab_tidy hcode, parsePaths, if_pos hchange]
      exact ite_self _
    · rw [if_neg hblank', splitTab_append hcode, splitTab_tidy (trimEnd_tidy hu), parsePaths_one,
        if_pos hchange]
      exact ite_self _
  · rw [if_neg hblank, if_neg hblank, if_neg (List.append_ne_nil_of_right_ne_nil _ (List.cons_ne_nil _ _)),
      List.append_assoc, List.cons_append, splitTab_append hcode, splitTab_append hu,
      splitTab_tidy (trimEnd_tidy hv), parsePaths, if_pos hchange]

end

section
variable (git : Git)

theorem printName_unquoted (h : Unquoted name) : git.printName name = name := by
  apply if_neg
  rw [Bool.not_eq_true, List.any_eq_false]
  exact fun c hc => Bool.eq_false_iff.1 (h c hc)

theorem printName_tidy (name : Text) : Tidy (git.printName name) := by
  rw [Git.printName]
  split
  · have hquote : Tidy ['"'] := by
      intro c hc
      rw [List.mem_singleton.1 hc]
      decide
    refine Tidy.append (Tidy.append hquote ?_) hquote
    intro c hc
    obtain ⟨d, -, hc⟩ := List.mem_flatMap.1 hc
    split at hc
    · exact tidy_graphic (git.escape_graphic d ‹_›) c hc
    · rw [List.mem_singleton.1 hc]
      exact le_of_not_quoted (Bool.eq_false_iff.2 ‹_›)
  · rename_i hnone
    rw [Bool.not_eq_true, List.any_eq_false] at hnone
    exact fun c hc => le_of_not_quoted (Bool.eq_false_iff.2 (hnone c hc))

theorem length_escaped (name : Text) : name.length ≤
    (name.flatMap fun c => if isQuoted c then git.escape c else [c]).length := by
  induction name with
  | nil => exact Nat.le_refl _
  | cons c name ih =>
    rw [List.flatMap_cons, List.length_append, List.length_cons]
    have hpos : 0 < (if isQuoted c then git.escape c else [c]).length := by
      split
      · exact List.length_pos_of_ne_nil (git.escape_ne_nil c ‹_›)
      · exact Nat.one_pos
    omega

theorem printName_quoted (h : ¬Unquoted name) :
    EndsVisibly (git.printName name) ∧ git.printName name ≠ name := by
  have hany : name.any isQuoted = true := by
    by_contra hnone
    rw [Bool.not_eq_true, List.any_eq_false] at hnone
    exact h fun c hc => Bool.eq_false_iff.2 (hnone c hc)
  rw [Git.printName, if_pos hany]
  constructor
  · exact ⟨'"', List.getLast?_concat, by decide⟩
  · intro heq
    have hlength := congrArg List.length heq
    have hle := length_escaped git name
    rw [List.length_append, List.length_cons, List.length_singleton] at hlength
    omega

theorem lastName_iff (name : Text) :
    (trimEnd (git.printName name) ≠ [] ∧ trimEnd (git.printName name) = name) ↔
      Unquoted name ∧ EndsVisibly name := by
  by_cases hunquoted : Unquoted name
  · rw [printName_unquoted git hunquoted]
    constructor
    · rintro ⟨hne, heq⟩
      rw [heq] at hne
      refine ⟨hunquoted, name.getLast hne, List.getLast?_eq_some_getLast hne, ?_⟩
      exact Bool.eq_false_iff.2 (List.rdropWhile_eq_self_iff.1 heq hne)
    · rintro ⟨-, hvisible⟩
      refine ⟨?_, trimEnd_eq_self hvisible⟩
      rw [trimEnd_eq_self hvisible]
      rintro rfl
      obtain ⟨c, hc, -⟩ := hvisible
      cases hc
  · obtain ⟨hvisible, hne⟩ := printName_quoted git hunquoted
    rw [trimEnd_eq_self hvisible]
    exact ⟨fun h => (hne h.2).elim, fun h => (hunquoted h.1).elim⟩

theorem name_iff (name : Text) : git.printName name = name ↔ Unquoted name := by
  constructor
  · intro heq
    by_contra hquoted
    exact (printName_quoted git hquoted).2 heq
  · exact printName_unquoted git

theorem parseLine_single {letter : Char} (hletter : Tidy [letter] ∧ isWhiteSpace letter = false)
    (hchange : ¬(changeType [letter] = .renamed ∨ changeType [letter] = .copied)) (path : Text) :
    parseLine ([letter] ++ '\t' :: git.printName path) = some ⟨changeType [letter], path, none⟩ ↔
      Unquoted path ∧ EndsVisibly path := by
  rw [parseLine_one hletter.1 ⟨letter, rfl, hletter.2⟩ (printName_tidy git path) hchange,
    ← lastName_iff git path]
  split
  · rename_i hblank
    exact ⟨nofun, fun h => (h.1 hblank).elim⟩
  · rename_i hblank
    rw [Option.some.injEq, StatusDiffEntry.mk.injEq]
    exact ⟨fun h => ⟨hblank, h.2.1⟩, fun h => ⟨rfl, h.2, rfl⟩⟩

theorem parseLine_double {letter : Char} (hletter : Tidy [letter] ∧ isWhiteSpace letter = false)
    (score : Nat) (hchange : changeType (letter :: git.score score) = .renamed ∨
      changeType (letter :: git.score score) = .copied) (old new : Text) :
    parseLine (letter :: git.score score ++ '\t' :: git.printName old ++ '\t' :: git.printName new) =
        some ⟨changeType (letter :: git.score score), new, some old⟩ ↔
      Unquoted old ∧ Unquoted new ∧ EndsVisibly new := by
  have hcode : Tidy (letter :: git.score score) :=
    hletter.1.append (tidy_graphic (git.score_graphic score))
  have hvisible : EndsVisibly (letter :: git.score score) := by
    rcases List.eq_nil_or_concat (git.score score) with hnil | ⟨digits, d, hconcat⟩
    · rw [hnil]
      exact ⟨letter, rfl, hletter.2⟩
    · rw [hconcat, List.concat_eq_append, ← List.cons_append]
      refine ⟨d, List.getLast?_concat, isWhiteSpace_graphic (git.score_graphic score d ?_)⟩
      rw [hconcat, List.concat_eq_append]
      exact List.mem_append_right _ (List.mem_singleton_self d)
  rw [parseLine_two hcode hvisible (printName_tidy git old) (printName_tidy git new) hchange,
    ← lastName_iff git new, ← name_iff git old]
  split
  · rename_i hblank
    exact ⟨nofun, fun h => (h.2.1 hblank).elim⟩
  · rename_i hblank
    rw [Option.some.injEq, StatusDiffEntry.mk.injEq, Option.some.injEq]
    exact ⟨fun h => ⟨h.2.2, hblank, h.2.1⟩, fun h => ⟨rfl, h.2.2, h.1⟩⟩

theorem parseLine_iff (change : Change) :
    parseLine (git.printLine change) = some change.entry ↔ change.Plain := by
  have hletter : ∀ letter ∈ ['A', 'M', 'D', 'T', 'R', 'C'],
      Tidy [letter] ∧ isWhiteSpace letter = false := by
    intro letter hletter
    have hgraphic : isGraphic letter = true := List.all_eq_true.1 (by decide : (['A', 'M', 'D', 'T',
      'R', 'C'] : List Char).all isGraphic = true) letter hletter
    refine ⟨tidy_graphic fun c hc => ?_, isWhiteSpace_graphic hgraphic⟩
    rwa [List.mem_singleton.1 hc]
  have hone (code path : Text) : (code ++ [path].flatMap fun name => '\t' :: git.printName name) =
      code ++ '\t' :: git.printName path := by
    rw [List.flatMap_singleton]
  have htwo (code old new : Text) :
      (code ++ [old, new].flatMap fun name => '\t' :: git.printName name) =
        code ++ '\t' :: git.printName old ++ '\t' :: git.printName new := by
    rw [List.flatMap_cons, List.flatMap_singleton, List.append_assoc]
  rw [Git.printLine]
  cases change with
  | added path =>
    rw [Git.fields, hone]
    exact parseLine_single git (hletter 'A' (by decide)) (by decide) path
  | modified path =>
    rw [Git.fields, hone]
    exact parseLine_single git (hletter 'M' (by decide)) (by decide) path
  | deleted path =>
    rw [Git.fields, hone]
    exact parseLine_single git (hletter 'D' (by decide)) (by decide) path
  | typeChanged path =>
    rw [Git.fields, hone]
    exact parseLine_single git (hletter 'T' (by decide)) (by decide) path
  | renamed score old new =>
    rw [Git.fields, htwo]
    exact parseLine_double git (hletter 'R' (by decide)) score (.inl rfl) old new
  | copied score old new =>
    rw [Git.fields, htwo]
    exact parseLine_double git (hletter 'C' (by decide)) score (.inr rfl) old new

theorem printLine_tidy (change : Change) : ∀ c ∈ git.printLine change, c ≠ '\n' ∧ c ≠ '\r' := by
  have hfields : Tidy (git.fields change).1 := by
    cases change with
    | renamed score | copied score =>
      apply Tidy.append (t := [_])
      · intro c hc
        rw [List.mem_singleton.1 hc]
        decide
      · exact tidy_graphic (git.score_graphic score)
    | _ =>
      intro c hc
      rw [List.mem_singleton.1 hc]
      decide
  intro c hc
  rcases List.mem_append.1 hc with hc | hc
  · exact ⟨hfields.ne hc (by decide), hfields.ne hc (by decide)⟩
  · obtain ⟨name, -, hc⟩ := List.mem_flatMap.1 hc
    rcases List.mem_cons.1 hc with rfl | hc
    · exact ⟨by decide, by decide⟩
    · have htidy := printName_tidy git name
      exact ⟨htidy.ne hc (by decide), htidy.ne hc (by decide)⟩

theorem parseNameStatus_print (changes : List Change) :
    parseNameStatus (git.print changes) = changes.filterMap fun c => parseLine (git.printLine c) := by
  have hprint : git.print changes = (changes.map git.printLine).flatMap (· ++ ['\n']) := by
    rw [List.flatMap_map]
    rfl
  rw [parseNameStatus, hprint, lines_flatMap, List.filterMap_map]
  · rfl
  · intro t ht
    obtain ⟨change, -, rfl⟩ := List.mem_map.1 ht
    exact printLine_tidy git change

/-- What git prints is parsed back exactly if each line has plain names. -/
theorem parseNameStatus_iff (changes : List Change) :
    parseNameStatus (git.print changes) = changes.map Change.entry ↔ ∀ c ∈ changes, c.Plain := by
  rw [parseNameStatus_print, List.filterMap_eq_map_iff_forall_eq_some]
  exact forall₂_congr fun change _ => parseLine_iff git change

end

def digit : Nat → Char
  | 0 => '0'
  | 1 => '1'
  | 2 => '2'
  | 3 => '3'
  | 4 => '4'
  | 5 => '5'
  | 6 => '6'
  | 7 => '7'
  | 8 => '8'
  | _ => '9'

theorem digit_graphic (n : Nat) : isGraphic (digit n) = true := by
  unfold digit
  split <;> decide

def digits (base n : Nat) : Text := [digit (n / (base * base)), digit (n / base % base), digit (n % base)]

theorem digits_graphic (base n : Nat) : ∀ c ∈ digits base n, isGraphic c = true := by
  intro c hc
  simp only [digits, List.mem_cons, List.not_mem_nil, or_false] at hc
  obtain rfl | rfl | rfl := hc <;> exact digit_graphic _

def cEscape (c : Char) : Text :=
  match c with
  | '\x07' => ['a']
  | '\x08' => ['b']
  | '\t' => ['t']
  | '\n' => ['n']
  | '\x0B' => ['v']
  | '\x0C' => ['f']
  | '\r' => ['r']
  | '"' => ['"']
  | '\\' => ['\\']
  | _ => digits 8 c.toNat

theorem cEscape_graphic (c : Char) : ∀ x ∈ cEscape c, isGraphic x = true := by
  unfold cEscape
  split
  case h_10 => exact digits_graphic 8 _
  all_goals
    intro x hx
    rw [List.mem_singleton.1 hx]
    decide

def cStyle : Git where
  escape c := '\\' :: cEscape c
  score := digits 10
  escape_ne_nil _ _ := List.cons_ne_nil _ _
  escape_graphic c _ x hx := by
    rcases List.mem_cons.1 hx with rfl | hx
    · decide
    · exact cEscape_graphic c x hx
  score_graphic := digits_graphic 10

/-- A tab in a name is printed as two characters between quotes, and read so. -/
theorem parseNameStatus_not : ¬∀ (git : Git) changes,
    parseNameStatus (git.print changes) = changes.map Change.entry := by
  intro h
  have hread := h cStyle [.added ['a', '\t', 'b']]
  revert hread
  decide

end Cdesktop.NameStatus
