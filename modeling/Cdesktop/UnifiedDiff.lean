import Cdesktop.Lines
import Cdesktop.NameStatus
import Mathlib.Algebra.Order.BigOperators.Group.List
import Mathlib.Algebra.Order.Group.Nat
import Mathlib.Algebra.Ring.Nat

/-! Unified diffs in the form that the diff viewer supports. Texts are lists of characters. -/

namespace Cdesktop.UnifiedDiff
open NameStatus (Text lines stripCarriageReturn trimEnd)
open TrustedKeys (isWhiteSpace)
set_option autoImplicit true

def splitInclusive (text : Text) : List Text := Lines.split '\n' text

def isHeader (line : Text) : Bool := ['@', '@'].isPrefixOf line

def startsWith (chars : List Char) (line : Text) : Bool := line.head?.any (· ∈ chars)

def isBody : Text → Bool := startsWith [' ', '+', '-']

def oldCount (lines : List Text) : Nat := (lines.filter (startsWith ['-', ' '])).length

def newCount (lines : List Text) : Nat := (lines.filter (startsWith ['+', ' '])).length

/-- `@@ -1,{old_count} +1,{new_count} @@` -/
def newHeader (lines : List Text) : Text :=
  ['@', '@', ' ', '-', '1', ','] ++ Nat.toDigits 10 (oldCount lines) ++ [' ', '+', '1', ','] ++
    Nat.toDigits 10 (newCount lines) ++ [' ', '@', '@']

structure Collector where
  hunks : List Text
  currentHunk : Option Text

def flush (currentHunk : Option Text) : List Text := (currentHunk.filter (· ≠ [])).toList

def Collector.line (c : Collector) (line : Text) : Collector :=
  if isHeader line then { hunks := c.hunks ++ flush c.currentHunk, currentHunk := some line }
  else match c.currentHunk with
    | none => c
    | some hunk =>
      if isBody line then { c with currentHunk := some (hunk ++ line) }
      else { hunks := c.hunks ++ flush (some hunk), currentHunk := none }

def trim (line : Text) : Text := trimEnd (line.dropWhile isWhiteSpace)

def fixHunkHeader (hunk : Text) : Option Text :=
  match splitInclusive hunk with
  | header :: line :: lines =>
    if ¬ isHeader header then none
    else if trim header = ['@', '@'] then
      some (newHeader (line :: lines) ++ (line :: lines).flatten)
    else some hunk
  | _ => none

def fixHunkHeaders (hunks : List Text) : List Text := hunks.filterMap fixHunkHeader

def extractUnifiedDiffHunks (unifiedDiff : Text) : List Text :=
  let lines := splitInclusive unifiedDiff
  if ¬ lines.any isHeader then
    let hunk := (lines.filter isBody).flatten
    if hunk = [] then [] else [newHeader lines ++ '\n' :: hunk]
  else
    let collected := lines.foldl Collector.line ⟨[], none⟩
    fixHunkHeaders (collected.hunks ++ flush collected.currentHunk)

def fileHeader (filePath : Text) : Text :=
  "diff --git a/".toList ++ filePath ++ " b/".toList ++ filePath ++ "\n--- a/".toList ++ filePath ++
    "\n+++ b/".toList ++ filePath ++ ['\n']

def concatenateDiffHunks (filePath : Text) (hunks : List Text) : Text :=
  let unifiedDiff := fileHeader filePath
  if hunks = [] then unifiedDiff
  else
    let lines := (hunks.flatMap lines).filter fun line => ['@', '@', ' '].isPrefixOf line || isBody line
    let unifiedDiff := unifiedDiff ++ ['\n'].intercalate lines
    if unifiedDiff.getLast? = some '\n' then unifiedDiff else unifiedDiff ++ ['\n']

def normalizeUnifiedDiff (filePath unifiedDiff : Text) : Text :=
  concatenateDiffHunks filePath (extractUnifiedDiffHunks unifiedDiff)

/-! The hunks of a text. -/

structure Hunk where
  header : Text
  body : List Text
deriving DecidableEq

/-- A header and the lines of context, and those that are added and removed, behind it. An unknown
line ends the hunk, as in the source: the lines behind it, up to the next header, are in none. -/
def sections : List Text → List Hunk
  | [] => []
  | line :: lines =>
    if isHeader line then ⟨line, lines.takeWhile isBody⟩ :: sections lines else sections lines

def hunksOf (text : Text) : List Hunk :=
  let lines := splitInclusive text
  if lines.any isHeader then (sections lines).filter (·.body ≠ [])
  else if lines.filter isBody = [] then []
  else [⟨newHeader (lines.filter isBody) ++ ['\n'], lines.filter isBody⟩]

def content (line : Text) : Text := if line.getLast? = some '\n' then line.dropLast else line

def unlines (lines : List Text) : Text := lines.flatMap (· ++ ['\n'])

namespace Hunk

def bare (h : Hunk) : Prop := trim h.header = ['@', '@']

instance (h : Hunk) : Decidable h.bare := inferInstanceAs (Decidable (_ = _))

def headerLine (h : Hunk) : Text := if h.bare then newHeader h.body else content h.header

def print (h : Hunk) : Text := unlines (h.headerLine :: h.body.map content)

end Hunk

/-! What the code makes of them. -/

theorem isBody_of_isHeader (h : isHeader line) : isBody line = false := by
  cases line with
  | nil => rfl
  | cons c line =>
    have hc : '@' = c := by
      have hbegins := List.isPrefixOf_iff_prefix.mp h
      exact (List.cons_prefix_cons.mp hbegins).1
    rw [← hc]
    rfl

theorem flush_none : flush none = [] := rfl

theorem flush_some (h : hunk ≠ []) : flush (some hunk) = [hunk] := by
  rw [flush, Option.filter_some, if_pos (decide_eq_true h)]
  rfl

theorem takeWhile_of_not (h : ¬ isBody line = true) (rest : List Text) :
    (line :: rest).takeWhile isBody = [] := by
  rw [List.takeWhile_cons, if_neg h]

def Hunk.raw (h : Hunk) : Text := h.header ++ h.body.flatten

def collected (currentHunk : Option Text) (lines : List Text) : List Text :=
  match currentHunk with
  | none => (sections lines).map Hunk.raw
  | some hunk => (hunk ++ (lines.takeWhile isBody).flatten) :: (sections lines).map Hunk.raw

theorem collect_eq (lines : List Text) (c : Collector) (hc : ∀ hunk ∈ c.currentHunk, hunk ≠ []) :
    (lines.foldl Collector.line c).hunks ++ flush (lines.foldl Collector.line c).currentHunk =
      c.hunks ++ collected c.currentHunk lines := by
  induction lines generalizing c with
  | nil =>
    rw [List.foldl_nil]
    cases hcurrent : c.currentHunk with
    | none => rfl
    | some hunk =>
      rw [flush_some (hc hunk hcurrent)]
      change _ = c.hunks ++ [hunk ++ []]
      rw [List.append_nil]
  | cons line lines ih =>
    rw [List.foldl_cons]
    by_cases hheader : isHeader line
    · have hne : line ≠ [] := by
        rintro rfl
        cases hheader
      have hline : c.line line =
          { hunks := c.hunks ++ flush c.currentHunk, currentHunk := some line } := if_pos hheader
      have hnot : ¬ isBody line = true := by
        rw [isBody_of_isHeader hheader]
        exact Bool.false_ne_true
      have hsections : sections (line :: lines) = ⟨line, lines.takeWhile isBody⟩ :: sections lines :=
        if_pos hheader
      rw [hline, ih]
      · cases hcurrent : c.currentHunk with
        | none =>
          dsimp only [collected]
          rw [hsections, flush_none, List.append_nil]
          rfl
        | some hunk =>
          dsimp only [collected]
          rw [hsections, flush_some (hc hunk hcurrent), takeWhile_of_not hnot, List.flatten_nil,
            List.append_nil, List.append_assoc]
          rfl
      · intro hunk hhunk
        cases hhunk
        exact hne
    · have hsections : sections (line :: lines) = sections lines := if_neg hheader
      cases hcurrent : c.currentHunk with
      | none =>
        have hline : c.line line = c := by rw [Collector.line, if_neg hheader, hcurrent]
        rw [hline, ih c hc, hcurrent]
        dsimp only [collected]
        rw [hsections]
      | some hunk =>
        have hhunk := hc hunk hcurrent
        by_cases hbody : isBody line
        · have hline : c.line line = { c with currentHunk := some (hunk ++ line) } := by
            rw [Collector.line, if_neg hheader, hcurrent]
            exact if_pos hbody
          rw [hline, ih]
          · dsimp only [collected]
            rw [hsections, List.takeWhile_cons, if_pos hbody, List.flatten_cons, List.append_assoc]
          · intro hunk' hhunk'
            cases hhunk'
            exact fun hnil => hhunk (List.append_eq_nil_iff.mp hnil).1
        · have hline : c.line line =
              { hunks := c.hunks ++ flush (some hunk), currentHunk := none } := by
            rw [Collector.line, if_neg hheader, hcurrent]
            exact if_neg hbody
          rw [hline, ih]
          · dsimp only [collected]
            rw [hsections, flush_some hhunk, takeWhile_of_not hbody, List.flatten_nil,
              List.append_nil, List.append_assoc]
            rfl
          · exact nofun

variable {ls : List Text} {hunk h : Hunk} {hunks : List Hunk}

theorem lined_section (hlined : Lines.Lined '\n' ls) (h : hunk ∈ sections ls) :
    Lines.Lined '\n' (hunk.header :: hunk.body) ∧ isHeader hunk.header ∧
      ∀ line ∈ hunk.body, isBody line := by
  induction ls with
  | nil => cases h
  | cons line ls ih =>
    rw [sections] at h
    split at h
    · next hheader =>
      cases h with
      | head =>
        rw [← List.takeWhile_append_dropWhile (p := isBody) (l := ls), ← List.cons_append] at hlined
        exact ⟨hlined.of_append, hheader, fun _ => List.mem_takeWhile_imp⟩
      | tail _ h => exact ih hlined.2.2.2 h
    · exact ih hlined.2.2.2 h

theorem header_mem (h : hunk ∈ sections ls) : hunk.header ∈ ls := by
  induction ls with
  | nil => cases h
  | cons line ls ih =>
    rw [sections] at h
    split at h
    · cases h with
      | head => exact List.mem_cons_self
      | tail _ h => exact List.mem_cons_of_mem _ (ih h)
    · exact List.mem_cons_of_mem _ (ih h)

/-- Where all lines are headers or lines of hunks, each of these is in a section, or is before the
first one. -/
theorem body_mem (hall : ∀ line ∈ ls, isHeader line ∨ isBody line)
    (hline : line ∈ ls) (hbody : isBody line) :
    line ∈ ls.takeWhile isBody ∨ ∃ hunk ∈ sections ls, line ∈ hunk.body := by
  induction ls with
  | nil => cases hline
  | cons first ls ih =>
    have htail := fun line hline => hall line (List.mem_cons_of_mem _ hline)
    rw [sections]
    cases hline with
    | head =>
      left
      rw [List.takeWhile_cons, if_pos hbody]
      exact List.mem_cons_self
    | tail _ hline =>
      by_cases hheader : isHeader first
      · right
        rw [if_pos hheader]
        cases ih htail hline with
        | inl htake => exact ⟨_, List.mem_cons_self, htake⟩
        | inr hsection =>
          obtain ⟨hunk, hhunk, hline⟩ := hsection
          exact ⟨hunk, List.mem_cons_of_mem _ hhunk, hline⟩
      · have hfirst := (hall first List.mem_cons_self).resolve_left hheader
        rw [if_neg hheader, List.takeWhile_cons, if_pos hfirst]
        exact (ih htail hline).imp_left (List.mem_cons_of_mem _)

theorem startsWith_mono (h : ∀ c ∈ chars, c ∈ chars') (line : Text)
    (hline : startsWith chars line = true) : startsWith chars' line = true := by
  cases line with
  | nil => cases hline
  | cons c line =>
    rw [startsWith, List.head?_cons, Option.any_some, decide_eq_true_iff] at hline ⊢
    exact h c hline

theorem filter_isBody (h : chars ⊆ [' ', '+', '-']) (lines : List Text) :
    (lines.filter isBody).filter (startsWith chars) = lines.filter (startsWith chars) := by
  rw [List.filter_filter]
  apply List.filter_congr
  intro line _
  cases hline : startsWith chars line with
  | false => rfl
  | true => exact startsWith_mono (fun _ hc => h hc) line hline

theorem newHeader_filter (lines : List Text) : newHeader (lines.filter isBody) = newHeader lines := by
  rw [newHeader, newHeader, oldCount, oldCount, newCount, newCount, filter_isBody (by decide),
    filter_isBody (by decide)]

theorem newHeader_eq (lines : List Text) :
    ∃ rest, newHeader lines = '@' :: '@' :: ' ' :: (rest ++ ['@']) := by
  apply Exists.intro ('-' :: '1' :: ',' :: (Nat.toDigits 10 (oldCount lines) ++
    [' ', '+', '1', ','] ++ Nat.toDigits 10 (newCount lines) ++ [' ', '@']))
  rw [newHeader]
  simp only [List.cons_append, List.append_assoc, List.nil_append]

theorem trim_newline (h : isHeader line) : trim (line ++ ['\n']) = trimEnd line := by
  cases line with
  | nil => cases h
  | cons c line =>
    have hc : '@' = c := (List.cons_prefix_cons.mp (List.isPrefixOf_iff_prefix.mp h)).1
    rw [trim, List.cons_append, ← hc, List.dropWhile_cons_of_neg (by decide), ← List.cons_append,
      trimEnd, List.rdropWhile_concat_pos _ _ _ (by decide)]
    rfl

theorem not_bare (rest : Text) (body : List Text) :
    ¬ Hunk.bare ⟨'@' :: '@' :: ' ' :: (rest ++ ['@']) ++ ['\n'], body⟩ := by
  have hlast : '@' :: '@' :: ' ' :: (rest ++ ['@']) = ('@' :: '@' :: ' ' :: rest) ++ ['@'] := rfl
  rw [Hunk.bare, trim_newline rfl, hlast, trimEnd, List.rdropWhile_concat_neg _ _ _ (by decide)]
  intro heq
  cases rest <;> cases heq

theorem newHeader_not_bare (ls body : List Text) :
    ¬ Hunk.bare ⟨newHeader ls ++ ['\n'], body⟩ := by
  obtain ⟨rest, hrest⟩ := newHeader_eq ls
  rw [hrest]
  exact not_bare rest body

def Hunk.text (h : Hunk) : Text := if h.bare then newHeader h.body ++ h.body.flatten else h.raw

theorem fixHunkHeader_raw (hlined : Lines.Lined '\n' (hunk.header :: hunk.body))
    (hheader : isHeader hunk.header) :
    fixHunkHeader hunk.raw = if hunk.body = [] then none else some hunk.text := by
  have hsplit : splitInclusive hunk.raw = hunk.header :: hunk.body := hlined.split_flatten '\n'
  rw [fixHunkHeader, hsplit]
  cases hbody : hunk.body with
  | nil => rfl
  | cons line lines =>
    dsimp only
    rw [if_neg (not_not_intro hheader), if_neg (List.cons_ne_nil _ _), Hunk.text, hbody]
    by_cases hbare : hunk.bare
    · rw [if_pos hbare]
      exact if_pos hbare
    · rw [if_neg hbare]
      exact if_neg hbare

theorem fixHunkHeaders_raw (hunks : List Hunk) (h : ∀ hunk ∈ hunks,
    Lines.Lined '\n' (hunk.header :: hunk.body) ∧ isHeader hunk.header) :
    fixHunkHeaders (hunks.map Hunk.raw) = (hunks.filter (·.body ≠ [])).map Hunk.text := by
  induction hunks with
  | nil => rfl
  | cons hunk hunks ih =>
    obtain ⟨hlined, hheader⟩ := h hunk List.mem_cons_self
    have hrest := ih fun hunk hhunk => h hunk (List.mem_cons_of_mem _ hhunk)
    rw [fixHunkHeaders] at hrest ⊢
    rw [List.map_cons, List.filterMap_cons, fixHunkHeader_raw hlined hheader, hrest, List.filter_cons]
    by_cases hbody : hunk.body = []
    · rw [if_pos hbody, if_neg (by simpa using hbody)]
    · rw [if_neg hbody, if_pos (by simpa using hbody)]
      rfl

theorem isBody_ne_nil (h : isBody line) : line ≠ [] := by
  rintro rfl
  cases h

theorem extractUnifiedDiffHunks_eq (text : Text) :
    extractUnifiedDiffHunks text = (hunksOf text).map Hunk.text := by
  rw [extractUnifiedDiffHunks, hunksOf]
  dsimp only
  by_cases hany : (splitInclusive text).any isHeader
  · rw [if_neg (not_not_intro hany), if_pos hany, collect_eq _ ⟨[], none⟩ nofun]
    exact fixHunkHeaders_raw _ fun hunk hhunk =>
      let hsection := lined_section (Lines.lined_split '\n' text) hhunk
      ⟨hsection.1, hsection.2.1⟩
  · rw [if_pos hany, if_neg hany]
    by_cases hnil : (splitInclusive text).filter isBody = []
    · rw [if_pos hnil, hnil]
      rfl
    · obtain ⟨line, lines, hlines⟩ := List.exists_cons_of_ne_nil hnil
      have hbody : isBody line :=
        (List.mem_filter.mp (hlines ▸ List.mem_cons_self : line ∈ List.filter isBody _)).2
      have hflat : ((splitInclusive text).filter isBody).flatten ≠ [] := by
        rw [hlines, List.flatten_cons]
        exact fun hnil => isBody_ne_nil hbody (List.append_eq_nil_iff.mp hnil).1
      rw [if_neg hnil, if_neg hflat, List.map_singleton, Hunk.text, if_neg (newHeader_not_bare _ _),
        Hunk.raw, newHeader_filter, List.append_assoc]
      rfl

def strip (line : Text) : Text :=
  if line.getLast? = some '\n' then stripCarriageReturn line.dropLast else line

theorem linesFrom_eq (start text : Text) (h : '\n' ∉ start) :
    NameStatus.linesFrom start text = (splitInclusive (start ++ text)).map strip := by
  induction text generalizing start with
  | nil =>
    rw [NameStatus.linesFrom, List.append_nil]
    split
    · next hnil =>
      rw [hnil]
      rfl
    · next hne =>
      have hlast : start.getLast? ≠ some '\n' := fun hlast => h (List.mem_of_getLast? hlast)
      rw [splitInclusive, Lines.split_open '\n' h hne, List.map_singleton, strip, if_neg hlast]
  | cons c text ih =>
    rw [NameStatus.linesFrom]
    split
    · next hc =>
      rw [hc, splitInclusive, Lines.split_line '\n' h, List.map_cons, strip, List.getLast?_concat,
        if_pos rfl, List.dropLast_concat, ih [] List.not_mem_nil]
      rfl
    · next hc =>
      rw [ih, List.append_assoc, List.singleton_append]
      intro hmem
      cases List.mem_append.mp hmem with
      | inl hmem => exact h hmem
      | inr hmem => exact hc (List.mem_singleton.mp hmem).symm

theorem lines_eq (text : Text) : lines text = (splitInclusive text).map strip :=
  linesFrom_eq [] text List.not_mem_nil

theorem strip_cons (hnewline : c ≠ '\n') (hreturn : c ≠ '\r') (line : Text) :
    strip (c :: line) = c :: strip line := by
  by_cases hline : line = []
  · rw [hline, strip, List.getLast?_singleton, if_neg fun hlast => hnewline (Option.some.inj hlast)]
    rfl
  · have hlast : (c :: line).getLast? = line.getLast? := List.getLast?_cons_of_ne_nil hline
    rw [strip, strip, hlast]
    split
    · rw [List.dropLast_cons_of_ne_nil hline, stripCarriageReturn, stripCarriageReturn]
      by_cases hbody : line.dropLast = []
      · rw [hbody, List.getLast?_singleton, if_neg fun hlast => hreturn (Option.some.inj hlast)]
        rfl
      · rw [List.getLast?_cons_of_ne_nil hbody, List.dropLast_cons_of_ne_nil hbody]
        split <;> rfl
    · rfl

theorem strip_append (hnewline : c ≠ '\n') (start line : Text) :
    strip (start ++ c :: line) = start ++ strip (c :: line) := by
  have hlast : (start ++ c :: line).getLast? = (c :: line).getLast? :=
    List.getLast?_append_of_ne_nil _ (List.cons_ne_nil _ _)
  rw [strip, strip, hlast]
  split
  · next hend =>
    have hline : line ≠ [] := by
      rintro rfl
      exact hnewline (Option.some.inj hend)
    have hne : (c :: line).dropLast ≠ [] := by
      rw [List.dropLast_cons_of_ne_nil hline]
      exact List.cons_ne_nil _ _
    rw [List.dropLast_append_of_ne_nil (List.cons_ne_nil _ _), stripCarriageReturn,
      stripCarriageReturn, List.getLast?_append_of_ne_nil _ hne]
    split
    · rw [List.dropLast_append_of_ne_nil hne]
    · rfl
  · rfl

theorem strip_isPrefix (line : Text) : strip line <+: line := by
  rw [strip]
  split
  · rw [stripCarriageReturn]
    split
    · exact (List.dropLast_prefix _).trans (List.dropLast_prefix _)
    · exact List.dropLast_prefix _
  · exact List.prefix_refl _

theorem isBody_cons (h : isBody line) :
    ∃ c rest, line = c :: rest ∧ c ≠ '\n' ∧ c ≠ '\r' ∧ ∀ rest', isBody (c :: rest') := by
  cases line with
  | nil => cases h
  | cons c rest =>
    have hc : c ∈ [' ', '+', '-'] := of_decide_eq_true h
    apply Exists.intro c
    apply Exists.intro rest
    apply And.intro rfl
    constructor
    · rintro rfl
      revert hc
      decide
    · constructor
      · rintro rfl
        revert hc
        decide
      · exact fun _ => decide_eq_true hc

theorem isBody_strip (h : isBody line) : isBody (strip line) := by
  obtain ⟨c, rest, rfl, hnewline, hreturn, hbody⟩ := isBody_cons h
  rw [strip_cons hnewline hreturn]
  exact hbody _

def isFull (line : Text) : Bool := ['@', '@', ' '].isPrefixOf line

theorem isHeader_cons (h : isHeader line) : ∃ rest, line = '@' :: '@' :: rest := by
  obtain ⟨rest, rfl⟩ := List.isPrefixOf_iff_prefix.mp h
  exact ⟨rest, rfl⟩

theorem isFull_strip (h : isHeader line) : isFull (strip line) = isFull line := by
  obtain ⟨rest, rfl⟩ := isHeader_cons h
  rw [strip_cons (by decide) (by decide), strip_cons (by decide) (by decide), isFull, isFull]
  rw [Bool.eq_iff_iff, List.isPrefixOf_iff_prefix, List.isPrefixOf_iff_prefix,
    List.cons_prefix_cons, List.cons_prefix_cons, List.cons_prefix_cons, List.cons_prefix_cons]
  apply and_congr_right
  intro _
  apply and_congr_right
  intro _
  constructor
  · exact fun hstart => hstart.trans (strip_isPrefix rest)
  · rintro ⟨rest', rfl⟩
    rw [List.singleton_append, strip_cons (by decide) (by decide)]
    exact ⟨_, rfl⟩

structure Hunk.Valid (h : Hunk) : Prop where
  lined : Lines.Lined '\n' (h.header :: h.body)
  header : isHeader h.header
  body : ∀ line ∈ h.body, isBody line
  ne_nil : h.body ≠ []

theorem lined_filter (h : Lines.Lined '\n' ls) (p : Text → Bool) :
    Lines.Lined '\n' (ls.filter p) := by
  induction ls with
  | nil => trivial
  | cons line ls ih =>
    obtain ⟨hne, hsep, hlast, hls⟩ := h
    rw [List.filter_cons]
    split
    · apply And.intro hne
      apply And.intro hsep
      apply And.intro _ (ih hls)
      intro hfilter
      apply hlast
      rintro rfl
      exact hfilter rfl
    · exact ih hls

theorem not_mem_toDigits (n : Nat) : '\n' ∉ Nat.toDigits 10 n := fun h =>
  absurd (Nat.isDigit_of_mem_toDigits (by decide) (by decide) h) (by decide)

theorem newHeader_newline (ls : List Text) : '\n' ∉ newHeader ls := by
  rw [newHeader]
  simp only [List.mem_append, not_or]
  exact ⟨⟨⟨⟨by decide, not_mem_toDigits _⟩, by decide⟩, not_mem_toDigits _⟩, by decide⟩

theorem valid_of_mem (h : hunk ∈ hunksOf text) : hunk.Valid := by
  rw [hunksOf] at h
  split at h
  · obtain ⟨hmem, hne⟩ := List.mem_filter.mp h
    obtain ⟨hlined, hheader, hbody⟩ := lined_section (Lines.lined_split '\n' text) hmem
    exact ⟨hlined, hheader, hbody, of_decide_eq_true hne⟩
  · split at h
    · cases h
    · next hne =>
      cases List.mem_singleton.mp h
      constructor
      · apply And.intro (List.append_ne_nil_of_right_ne_nil _ (List.cons_ne_nil _ _))
        rw [List.dropLast_concat, List.getLast?_concat]
        exact ⟨newHeader_newline _, fun _ => rfl, lined_filter (Lines.lined_split '\n' text) _⟩
      · obtain ⟨rest, hrest⟩ := newHeader_eq (List.filter isBody (splitInclusive text))
        dsimp only
        rw [hrest]
        rfl
      · exact fun line hline => (List.mem_filter.mp hline).2
      · exact hne

/-- The lines of a hunk that get into the diff. A header that was made up runs into the first line,
and one that has no blank after its `@@` is left out. -/
def Hunk.emitted (h : Hunk) : List Text :=
  if h.bare then (newHeader h.body ++ strip (h.body.headD [])) :: h.body.tail.map strip
  else if isFull h.header then strip h.header :: h.body.map strip
  else h.body.map strip

theorem filter_body (body : List Text) (h : ∀ line ∈ body, isBody line) :
    (body.map strip).filter (fun line => isFull line || isBody line) = body.map strip := by
  apply List.filter_eq_self.mpr
  intro line hline
  obtain ⟨line, hmem, rfl⟩ := List.mem_map.mp hline
  rw [isBody_strip (h line hmem), Bool.or_true]

theorem Hunk.Valid.lines_text (h : hunk.Valid) :
    (lines hunk.text).filter (fun line => isFull line || isBody line) = hunk.emitted := by
  rw [lines_eq, Hunk.text, Hunk.emitted]
  split
  · obtain ⟨line, body, hcons⟩ := List.exists_cons_of_ne_nil h.ne_nil
    have hlined : Lines.Lined '\n' (line :: body) := hcons ▸ h.lined.2.2.2
    have hsplit := Lines.split_append_open '\n' (newHeader_newline hunk.body)
      (hlined.split_flatten '\n')
    have hbody := h.body
    rw [hcons] at hbody
    obtain ⟨c, rest, rfl, hnewline, -, -⟩ := isBody_cons (hbody line List.mem_cons_self)
    obtain ⟨start, hstart⟩ := newHeader_eq hunk.body
    have hfull (rest : Text) : (isFull (newHeader hunk.body ++ rest) || isBody
        (newHeader hunk.body ++ rest)) = true := by
      rw [hstart]
      rfl
    rw [hcons] at hsplit hstart hfull ⊢
    rw [splitInclusive, hsplit, List.map_cons, strip_append hnewline, List.filter_cons,
      if_pos (hfull _), filter_body _ fun line hline => hbody line (List.mem_cons_of_mem _ hline)]
    rfl
  · have hsplit := h.lined.split_flatten '\n'
    rw [List.flatten_cons] at hsplit
    have hnot : isBody (strip hunk.header) = false := by
      obtain ⟨rest, hrest⟩ := isHeader_cons h.header
      rw [hrest, strip_cons (by decide) (by decide)]
      rfl
    rw [Hunk.raw, splitInclusive, hsplit, List.map_cons, List.filter_cons, isFull_strip h.header,
      hnot, Bool.or_false, filter_body _ h.body]

theorem intercalate_concat (h : ls ≠ []) :
    ['\n'].intercalate ls ++ ['\n'] = unlines ls := by
  induction ls with
  | nil => exact absurd rfl h
  | cons line ls ih =>
    cases ls with
    | nil =>
      rw [List.intercalate_singleton]
      exact (List.append_nil _).symm
    | cons line' ls =>
      rw [List.intercalate_cons_cons, List.append_assoc, ih (List.cons_ne_nil _ _)]
      rfl

theorem strip_newline {line : Text} (h : '\n' ∉ line.dropLast) : '\n' ∉ strip line := by
  rw [strip]
  split
  · rw [stripCarriageReturn]
    split
    · exact fun hmem => h ((List.dropLast_sublist _).mem hmem)
    · exact h
  · next hlast =>
    intro hmem
    by_cases hne : line = []
    · rw [hne] at hmem
      cases hmem
    · rw [← List.dropLast_append_getLast hne] at hmem
      cases List.mem_append.mp hmem with
      | inl hmem => exact h hmem
      | inr hmem =>
        apply hlast
        rw [List.getLast?_eq_some_getLast hne, ← List.mem_singleton.mp hmem]

theorem Lined.dropLast (h : Lines.Lined '\n' ls) (hline : line ∈ ls) :
    line ≠ [] ∧ '\n' ∉ line.dropLast := by
  induction ls with
  | nil => cases hline
  | cons first ls ih =>
    cases hline with
    | head => exact ⟨h.1, h.2.1⟩
    | tail _ hline => exact ih h.2.2.2 hline

theorem isBody_strip_ne_nil (h : isBody line) : strip line ≠ [] := isBody_ne_nil (isBody_strip h)

theorem Hunk.Valid.emitted (h : hunk.Valid) :
    hunk.emitted ≠ [] ∧ ∀ line ∈ hunk.emitted, line ≠ [] ∧ '\n' ∉ line := by
  have hbody : ∀ line ∈ hunk.body.map strip, line ≠ [] ∧ '\n' ∉ line := by
    intro line hline
    obtain ⟨line, hmem, rfl⟩ := List.mem_map.mp hline
    exact ⟨isBody_strip_ne_nil (h.body line hmem),
      strip_newline (Lined.dropLast h.lined (List.mem_cons_of_mem _ hmem)).2⟩
  obtain ⟨first, rest, hcons⟩ := List.exists_cons_of_ne_nil h.ne_nil
  rw [Hunk.emitted]
  rw [hcons] at hbody ⊢
  split
  · apply And.intro (List.cons_ne_nil _ _)
    intro line hline
    cases hline with
    | head =>
      have hfirst := hbody _ List.mem_cons_self
      apply And.intro (List.append_ne_nil_of_right_ne_nil _ hfirst.1)
      intro hmem
      cases List.mem_append.mp hmem with
      | inl hmem => exact newHeader_newline _ hmem
      | inr hmem => exact hfirst.2 hmem
    | tail _ hline => exact hbody line (List.mem_cons_of_mem _ hline)
  · split
    · apply And.intro (List.cons_ne_nil _ _)
      intro line hline
      cases hline with
      | head =>
        obtain ⟨rest', hrest⟩ := isHeader_cons h.header
        apply And.intro
        · rw [hrest, strip_cons (by decide) (by decide)]
          exact List.cons_ne_nil _ _
        · exact strip_newline h.lined.2.1
      | tail _ hline => exact hbody line hline
    · exact ⟨List.cons_ne_nil _ _, hbody⟩

theorem intercalate_getLast? (h : ls ≠ []) (hls : ∀ line ∈ ls, line ≠ [] ∧ '\n' ∉ line) :
    ['\n'].intercalate ls ≠ [] ∧ (['\n'].intercalate ls).getLast? ≠ some '\n' := by
  induction ls with
  | nil => exact absurd rfl h
  | cons line ls ih =>
    cases ls with
    | nil =>
      obtain ⟨hne, hnewline⟩ := hls line List.mem_cons_self
      rw [List.intercalate_singleton]
      exact ⟨hne, fun hlast => hnewline (List.mem_of_getLast? hlast)⟩
    | cons line' ls =>
      obtain ⟨hne, hlast⟩ := ih (List.cons_ne_nil _ _)
        fun line hline => hls line (List.mem_cons_of_mem _ hline)
      rw [List.intercalate_cons_cons, List.getLast?_append_of_ne_nil _ hne]
      exact ⟨List.append_ne_nil_of_right_ne_nil _ hne, hlast⟩

theorem normalizeUnifiedDiff_eq (filePath text : Text) :
    normalizeUnifiedDiff filePath text =
      fileHeader filePath ++ (hunksOf text).flatMap (unlines ∘ Hunk.emitted) := by
  have hvalid (hunk : Hunk) (h : hunk ∈ hunksOf text) : hunk.Valid := valid_of_mem h
  rw [normalizeUnifiedDiff, extractUnifiedDiffHunks_eq, concatenateDiffHunks]
  generalize hunksOf text = hunks at hvalid
  by_cases hnil : hunks = []
  · rw [hnil, if_pos List.map_nil]
    exact (List.append_nil _).symm
  · have hmap : hunks.map Hunk.text ≠ [] := fun hmap => hnil (List.map_eq_nil_iff.mp hmap)
    have hlines : ((hunks.map Hunk.text).flatMap lines).filter
        (fun line => ['@', '@', ' '].isPrefixOf line || isBody line) =
        hunks.flatMap Hunk.emitted := by
      rw [List.flatMap_map, List.filter_flatMap]
      apply List.flatMap_congr
      exact fun hunk hhunk => (hvalid hunk hhunk).lines_text
    have hall : ∀ line ∈ hunks.flatMap Hunk.emitted, line ≠ [] ∧ '\n' ∉ line := by
      intro line hline
      obtain ⟨hunk, hhunk, hline⟩ := List.mem_flatMap.mp hline
      exact (hvalid hunk hhunk).emitted.2 line hline
    have hne : hunks.flatMap Hunk.emitted ≠ [] := by
      obtain ⟨hunk, rest, rfl⟩ := List.exists_cons_of_ne_nil hnil
      rw [List.flatMap_cons]
      exact List.append_ne_nil_of_left_ne_nil (hvalid hunk List.mem_cons_self).emitted.1 _
    obtain ⟨hinter, hlast⟩ := intercalate_getLast? hne hall
    rw [if_neg hmap, hlines, if_neg]
    · rw [List.append_assoc, intercalate_concat hne, unlines, List.flatMap_assoc]
      rfl
    · rw [List.getLast?_append_of_ne_nil _ hinter]
      exact hlast

/-! When nothing is lost. -/

namespace Hunk

structure Emits (h : Hunk) : Prop where
  full : isFull h.header
  bare : ¬ h.bare
  lines : ∀ line ∈ h.header :: h.body, strip line = content line

theorem Emits.emitted (hemits : h.Emits) : unlines h.emitted = h.print := by
  have hlines : (h.header :: h.body).map strip = (h.header :: h.body).map content :=
    List.map_congr_left hemits.lines
  rw [Hunk.emitted, print, headerLine, if_neg hemits.bare, if_neg hemits.bare, if_pos hemits.full]
  exact congrArg unlines hlines

end Hunk

theorem content_newline {line : Text} (h : '\n' ∉ line.dropLast) : '\n' ∉ content line := by
  rw [content]
  split
  · exact h
  · next hlast =>
    intro hmem
    apply strip_newline h
    rw [strip, if_neg hlast]
    exact hmem

namespace Hunk

def terminated (h : Hunk) : Hunk :=
  ⟨content h.header ++ ['\n'], h.body.map fun line => content line ++ ['\n']⟩

theorem content_cons (hc : c ≠ '\n') (line : Text) : content (c :: line) = c :: content line := by
  by_cases hline : line = []
  · rw [hline, content, List.getLast?_singleton, if_neg fun hlast => hc (Option.some.inj hlast)]
    rfl
  · rw [content, content, List.getLast?_cons_of_ne_nil hline, List.dropLast_cons_of_ne_nil hline]
    split <;> rfl

theorem isHeader_content (h : isHeader line) (rest : Text) : isHeader (content line ++ rest) := by
  obtain ⟨line, rfl⟩ := isHeader_cons h
  rw [content_cons (by decide), content_cons (by decide)]
  rfl

theorem isBody_content (h : isBody line) (rest : Text) : isBody (content line ++ rest) := by
  obtain ⟨c, line, rfl, hnewline, -, hbody⟩ := isBody_cons h
  rw [content_cons hnewline]
  exact hbody _

theorem lined_terminated (ls : List Text) (h : ∀ line ∈ ls, '\n' ∉ line) :
    Lines.Lined '\n' (ls.map (· ++ ['\n'])) := by
  induction ls with
  | nil => trivial
  | cons line ls ih =>
    apply And.intro (List.append_ne_nil_of_right_ne_nil _ (List.cons_ne_nil _ _))
    rw [List.dropLast_concat, List.getLast?_concat]
    exact ⟨h line List.mem_cons_self, fun _ => rfl,
      ih fun line hline => h line (List.mem_cons_of_mem _ hline)⟩

theorem Valid.contents (hvalid : h.Valid) :
    ∀ line ∈ (h.header :: h.body).map content, '\n' ∉ line := by
  intro line hline
  obtain ⟨line, hmem, rfl⟩ := List.mem_map.mp hline
  exact content_newline (Lined.dropLast hvalid.lined hmem).2

theorem terminated_lines (h : Hunk) : h.terminated.header :: h.terminated.body =
    ((h.header :: h.body).map content).map (· ++ ['\n']) := by
  rw [List.map_map]
  rfl

theorem Valid.terminated (hvalid : h.Valid) : h.terminated.Valid := by
  constructor
  · rw [terminated_lines]
    exact lined_terminated _ hvalid.contents
  · exact isHeader_content hvalid.header _
  · intro line hline
    obtain ⟨line, hmem, rfl⟩ := List.mem_map.mp hline
    exact isBody_content (hvalid.body line hmem) _
  · exact fun hnil => hvalid.ne_nil (List.map_eq_nil_iff.mp hnil)

structure Kept (h : Hunk) : Prop where
  full : isFull h.header
  bare : ¬ h.bare
  ends : ∀ line ∈ h.header :: h.body, (content line).getLast? ≠ some '\r'

end Hunk

theorem sections_append (ls : List Text) {rest : List Text} (h : rest.takeWhile isBody = []) :
    sections (ls ++ rest) = sections ls ++ sections rest := by
  induction ls with
  | nil => rfl
  | cons line ls ih =>
    rw [List.cons_append, sections, sections, ih]
    split
    · have htake : (ls ++ rest).takeWhile isBody = ls.takeWhile isBody := by
        rw [List.takeWhile_append]
        split
        · next hall =>
          rw [h, List.append_nil]
          exact (List.takeWhile_sublist _).eq_of_length hall |>.symm
        · rfl
      rw [htake]
      rfl
    · rfl

theorem sections_eq_nil (h : ∀ line ∈ ls, isHeader line = false) :
    sections ls = [] := by
  induction ls with
  | nil => rfl
  | cons line ls ih =>
    rw [sections, h line List.mem_cons_self]
    exact ih fun line hline => h line (List.mem_cons_of_mem _ hline)

theorem isHeader_of_isBody (h : isBody line) : isHeader line = false := by
  cases hheader : isHeader line with
  | false => rfl
  | true =>
    rw [isBody_of_isHeader hheader] at h
    cases h

def hunkLines (hunks : List Hunk) : List Text := hunks.flatMap fun h => h.header :: h.body

theorem takeWhile_hunkLines (hunks : List Hunk) (h : ∀ hunk ∈ hunks, hunk.Valid) :
    (hunkLines hunks).takeWhile isBody = [] := by
  cases hunks with
  | nil => rfl
  | cons hunk hunks =>
    apply takeWhile_of_not
    rw [isBody_of_isHeader (h hunk List.mem_cons_self).header]
    exact Bool.false_ne_true

theorem sections_hunkLines (hunks : List Hunk) (h : ∀ hunk ∈ hunks, hunk.Valid) :
    sections (hunkLines hunks) = hunks := by
  induction hunks with
  | nil => rfl
  | cons hunk hunks ih =>
    have hrest := fun hunk hhunk => h hunk (List.mem_cons_of_mem _ hhunk)
    obtain ⟨-, hheader, hbody, -⟩ := h hunk List.mem_cons_self
    have hcons : hunkLines (hunk :: hunks) = hunk.header :: (hunk.body ++ hunkLines hunks) := rfl
    have htake : (hunk.body ++ hunkLines hunks).takeWhile isBody = hunk.body := by
      rw [List.takeWhile_append_of_pos hbody, takeWhile_hunkLines hunks hrest, List.append_nil]
    rw [hcons, sections, if_pos hheader, htake, sections_append _ (takeWhile_hunkLines hunks hrest),
      sections_eq_nil fun line hline => isHeader_of_isBody (hbody line hline), ih hrest]
    rfl

theorem splitInclusive_unlines (h : ∀ line ∈ ls, '\n' ∉ line) :
    splitInclusive (unlines ls) = ls.map (· ++ ['\n']) := by
  rw [unlines, List.flatMap_def]
  exact (Hunk.lined_terminated ls h).split_flatten '\n'

end Cdesktop.UnifiedDiff
