import Cdesktop.Patch
import Cdesktop.UnifiedDiff

/-! The diffs that are made of two texts. The hunks come from a library. -/

namespace Cdesktop.CreateDiff
open NameStatus (Text stripCarriageReturn)
open UnifiedDiff
set_option autoImplicit true

def ensureNewline (line : Text) : Text := if line.getLast? = some '\n' then line else line ++ ['\n']

/-! The form that `similar` documents for the lines of a text and for the text of hunks. -/

def tokenizeLines : Text → List Text
  | [] => []
  | '\r' :: '\n' :: text => ['\r', '\n'] :: tokenizeLines text
  | '\r' :: text => ['\r'] :: tokenizeLines text
  | '\n' :: text => ['\n'] :: tokenizeLines text
  | c :: text =>
    match tokenizeLines text with
    | [] => [[c]]
    | line :: lines => (c :: line) :: lines

def missingNewline (value : Text) : Bool :=
  !(value.getLast? = some '\n' || value.getLast? = some '\r')

def changeToString (change : Patch.Change) : Text :=
  change.line ++
    if missingNewline change.value then "\n\\ No newline at end of file\n".toList else []

def hunkToString (hunk : Patch.Hunk) : Text :=
  hunk.header ++ '\n' :: hunk.changes.flatMap changeToString

/-- The hunks with the header `a` and `b`. -/
def unifiedDiffToString (hunks : List Patch.Hunk) : Text :=
  if hunks = [] then []
  else ['-', '-', '-', ' ', 'a', '\n'] ++ ['+', '+', '+', ' ', 'b', '\n'] ++ hunks.flatMap hunkToString

/-- The library. -/
structure Similar where
  lines : Text → List Text
  hunks : Text → Text → List Patch.Hunk
  toText : List Patch.Hunk → Text

section

variable (lib : Similar)

def createUnifiedDiffHunks (old new : Text) : List Text :=
  extractUnifiedDiffHunks (lib.toText (lib.hunks (ensureNewline old) (ensureNewline new)))

def createUnifiedDiff (filePath old new : Text) : Text :=
  concatenateDiffHunks filePath (createUnifiedDiffHunks lib old new)

/-- The library is as documented: its hunks turn the lines of the old text into those of the new one,
and none is empty. -/
structure Similar.Correct : Prop where
  lines : lib.lines = tokenizeLines
  toText : lib.toText = unifiedDiffToString
  apply : ∀ old new, Patch.applyHunks 0 (lib.hunks old new) (lib.lines old) = some (lib.lines new)
  changes : ∀ old new, ∀ hunk ∈ lib.hunks old new, hunk.changes ≠ []

def readHunks (text : Text) : Option (List Patch.Hunk) :=
  (sections (splitInclusive text)).mapM fun hunk => Patch.readHunk hunk.header hunk.body

/-- The hunks behind the header of the file turn the old text into the new one. -/
def Patches (filePath old new : Text) : Prop :=
  ∃ text hunks, createUnifiedDiff lib filePath old new = fileHeader filePath ++ text ∧
    readHunks text = some hunks ∧
    Patch.applyHunks 0 hunks (lib.lines (ensureNewline old)) = some (lib.lines (ensureNewline new))

end

structure Terminated (line : Text) : Prop where
  newline : '\n' ∉ line.dropLast
  carriage : ∀ c, ['\r', c] <:+: line → c = '\n'
  last : line.getLast? = some '\n' ∨ line.getLast? = some '\r'

theorem tokenizeLines_cons (hnewline : c ≠ '\n') (hreturn : c ≠ '\r') (text : Text) :
    tokenizeLines (c :: text) =
      match tokenizeLines text with
      | [] => [[c]]
      | line :: lines => (c :: line) :: lines := by
  rw [tokenizeLines]
  · exact fun _ hc _ => hreturn hc
  · exact hreturn
  · exact hnewline

theorem tokenizeLines_ne_nil (h : text ≠ []) : tokenizeLines text ≠ [] := by
  cases text using tokenizeLines.induct with
  | case1 => exact absurd rfl h
  | case2 text => exact List.cons_ne_nil _ _
  | case3 text hne =>
    rw [tokenizeLines]
    · exact List.cons_ne_nil _ _
    · exact hne
  | case4 text => exact List.cons_ne_nil _ _
  | case5 c text _ hreturn hnewline hnil =>
    rw [tokenizeLines_cons hnewline hreturn, hnil]
    exact List.cons_ne_nil _ _
  | case6 c text _ hreturn hnewline first rest hcons =>
    rw [tokenizeLines_cons hnewline hreturn, hcons]
    exact List.cons_ne_nil _ _

theorem terminated_singleton (h : c = '\n' ∨ c = '\r') : Terminated [c] := by
  constructor
  · exact List.not_mem_nil
  · intro d hwithin
    have hlength := hwithin.length_le
    change 2 ≤ 1 at hlength
    omega
  · exact h.imp (congrArg some) (congrArg some)

theorem Terminated.cons (h : Terminated line) (hnewline : c ≠ '\n') (hreturn : c ≠ '\r') :
    Terminated (c :: line) := by
  have hne : line ≠ [] := by
    rintro rfl
    cases h.last with
    | inl hlast => cases hlast
    | inr hlast => cases hlast
  constructor
  · rw [List.dropLast_cons_of_ne_nil hne]
    intro hmem
    cases hmem with
    | head => exact hnewline rfl
    | tail _ hmem => exact h.newline hmem
  · intro d hwithin
    cases List.infix_cons_iff.mp hwithin with
    | inl hbegins => exact absurd (List.cons_prefix_cons.mp hbegins).1.symm hreturn
    | inr hwithin => exact h.carriage d hwithin
  · rw [List.getLast?_cons_of_ne_nil hne]
    exact h.last

theorem tokenizeLines_terminated (h : Lines.Closed '\n' text) (hline : line ∈ tokenizeLines text) :
    Terminated line := by
  induction text using tokenizeLines.induct generalizing line with
  | case1 => cases hline
  | case2 text ih =>
    rw [tokenizeLines] at hline
    cases hline with
    | head =>
      constructor
      · decide
      · intro c hwithin
        have heq := hwithin.eq_of_length rfl
        cases heq
        rfl
      · exact Or.inl rfl
    | tail _ hline => exact ih h.tail.tail hline
  | case3 text hne ih =>
    rw [tokenizeLines] at hline
    · cases hline with
      | head => exact terminated_singleton (Or.inr rfl)
      | tail _ hline => exact ih h.tail hline
    · exact hne
  | case4 text ih =>
    rw [tokenizeLines] at hline
    cases hline with
    | head => exact terminated_singleton (Or.inl rfl)
    | tail _ hline => exact ih h.tail hline
  | case5 c text _ hreturn hnewline hnil ih =>
    have htext : text = [] := by
      by_contra hne
      exact tokenizeLines_ne_nil hne hnil
    rw [htext] at h
    exact absurd (h c rfl) hnewline
  | case6 c text _ hreturn hnewline first rest hcons ih =>
    rw [tokenizeLines_cons hnewline hreturn, hcons] at hline
    cases hline with
    | head => exact (ih h.tail (hcons ▸ List.mem_cons_self)).cons hnewline hreturn
    | tail _ hline => exact ih h.tail (hcons ▸ List.mem_cons_of_mem _ hline)

theorem ensureNewline_closed (text : Text) : Lines.Closed '\n' (ensureNewline text) := by
  rw [ensureNewline]
  split
  · next hlast =>
    intro last h
    rw [hlast] at h
    exact (Option.some.inj h).symm
  · exact Lines.closed_concat '\n' text

theorem Terminated.strip_iff (h : Terminated line) :
    strip line ++ ['\n'] = line ↔ '\r' ∉ line := by
  constructor
  · intro heq hmem
    have hlast : line.getLast? = some '\n' := by
      rw [← heq]
      exact List.getLast?_concat
    have hline := Lines.eq_concat '\n' hlast
    have hstrip : strip line = stripCarriageReturn line.dropLast := if_pos hlast
    have hbody : stripCarriageReturn line.dropLast = line.dropLast := by
      rw [← hstrip]
      exact List.append_cancel_right (heq.trans hline)
    obtain ⟨start, rest, hsplit⟩ := List.append_of_mem hmem
    cases rest with
    | nil =>
      rw [hsplit, List.getLast?_concat] at hlast
      cases hlast
    | cons c rest =>
      cases h.carriage c ⟨start, rest, by rw [hsplit, List.append_assoc]; rfl⟩
      cases rest with
      | nil =>
        have hdrop : line.dropLast = start ++ ['\r'] := by
          rw [hsplit, List.dropLast_append_of_ne_nil (List.cons_ne_nil _ _)]
          rfl
        rw [hdrop, stripCarriageReturn, if_pos List.getLast?_concat, List.dropLast_concat] at hbody
        have hlength := congrArg List.length hbody
        rw [List.length_append, List.length_singleton] at hlength
        omega
      | cons d rest =>
        apply h.newline
        rw [hsplit, List.dropLast_append_of_ne_nil (List.cons_ne_nil _ _)]
        exact List.mem_append_right _ (List.mem_cons_of_mem _ List.mem_cons_self)
  · intro hnot
    have hlast : line.getLast? = some '\n' :=
      h.last.resolve_right fun hlast => hnot (List.mem_of_getLast? hlast)
    have hbody : line.dropLast.getLast? ≠ some '\r' := fun hbody =>
      hnot ((List.dropLast_sublist _).mem (List.mem_of_getLast? hbody))
    rw [strip, if_pos hlast, stripCarriageReturn, if_neg hbody]
    exact (Lines.eq_concat '\n' hlast).symm

def raw (hunk : Patch.Hunk) : Hunk := ⟨hunk.header ++ ['\n'], hunk.changes.map Patch.Change.line⟩

def pieces (hunks : List Patch.Hunk) : List Text := hunkLines (hunks.map raw)

theorem changeToString_eq {change : Patch.Change} (h : Terminated change.value) :
    changeToString change = change.line := by
  have hlast : missingNewline change.value = false := by
    rw [missingNewline]
    cases h.last with
    | inl hlast => rw [decide_eq_true hlast, Bool.true_or, Bool.not_true]
    | inr hlast => rw [decide_eq_true hlast, Bool.or_true, Bool.not_true]
  rw [changeToString, hlast]
  exact List.append_nil _

theorem hunkToString_eq {hunk : Patch.Hunk} (h : ∀ change ∈ hunk.changes, Terminated change.value) :
    hunkToString hunk = ((raw hunk).header :: (raw hunk).body).flatten := by
  have hchanges : hunk.changes.flatMap changeToString = (hunk.changes.map Patch.Change.line).flatten := by
    rw [← List.flatMap_def]
    exact List.flatMap_congr fun change hchange => changeToString_eq (h change hchange)
  rw [hunkToString, hchanges, raw, List.flatten_cons, List.append_assoc]
  rfl

theorem unifiedDiffToString_eq {hunks : List Patch.Hunk} (hne : hunks ≠ [])
    (h : ∀ hunk ∈ hunks, ∀ change ∈ hunk.changes, Terminated change.value) :
    unifiedDiffToString hunks =
      ['-', '-', '-', ' ', 'a', '\n'] ++ ['+', '+', '+', ' ', 'b', '\n'] ++ (pieces hunks).flatten := by
  have hhunks : hunks.flatMap hunkToString = (pieces hunks).flatten := by
    rw [pieces, hunkLines, List.flatMap_map, ← List.flatMap_id, List.flatMap_assoc]
    apply List.flatMap_congr
    intro hunk hhunk
    rw [hunkToString_eq (h hunk hhunk), List.flatMap_id]
  rw [unifiedDiffToString, if_neg hne, hhunks]

theorem header_chars (hunk : Patch.Hunk) :
    ∀ c ∈ hunk.header, c.isDigit ∨ c ∈ ['@', ' ', '-', '+', ','] := by
  have hdigits (n : Nat) : ∀ c ∈ Nat.toDigits 10 n, c.isDigit ∨ c ∈ ['@', ' ', '-', '+', ','] :=
    fun c hc => Or.inl (Nat.isDigit_of_mem_toDigits (by decide) (by decide) hc)
  have hrange (start len : Nat) :
      ∀ c ∈ Patch.printRange start len, c.isDigit ∨ c ∈ ['@', ' ', '-', '+', ','] := by
    rw [Patch.printRange]
    split
    · exact hdigits _
    · rw [List.forall_mem_append, List.forall_mem_cons]
      exact ⟨hdigits _, Or.inr (by decide), hdigits _⟩
  rw [Patch.Hunk.header]
  simp only [List.forall_mem_cons, List.forall_mem_append]
  exact ⟨Or.inr (by decide), Or.inr (by decide), Or.inr (by decide), Or.inr (by decide), hrange _ _,
    Or.inr (by decide), Or.inr (by decide), hrange _ _, Or.inr (by decide), Or.inr (by decide),
    Or.inr (by decide), List.forall_mem_nil _⟩

theorem header_newline (hunk : Patch.Hunk) : '\n' ∉ hunk.header := fun h =>
  absurd (header_chars hunk _ h) (by decide)

theorem header_return (hunk : Patch.Hunk) : '\r' ∉ hunk.header := fun h =>
  absurd (header_chars hunk _ h) (by decide)

theorem isBody_line (change : Patch.Change) : isBody change.line := by
  obtain ⟨tag, value⟩ := change
  cases tag <;> rfl

theorem line_char (change : Patch.Change) :
    change.tag.char ≠ '\n' ∧ change.tag.char ≠ '\r' ∧ change.tag.char ≠ '@' := by
  cases change.tag <;> decide

theorem mem_pieces {hunks : List Patch.Hunk} (h : piece ∈ pieces hunks) :
    ∃ hunk ∈ hunks, piece = hunk.header ++ ['\n'] ∨ ∃ change ∈ hunk.changes, piece = change.line := by
  obtain ⟨hunk', hhunk, hpiece⟩ := List.mem_flatMap.mp h
  obtain ⟨hunk, hmem, rfl⟩ := List.mem_map.mp hhunk
  refine ⟨hunk, hmem, (List.mem_cons.mp hpiece).imp id fun hpiece => ?_⟩
  obtain ⟨change, hchange, hline⟩ := List.mem_map.mp hpiece
  exact ⟨change, hchange, hline.symm⟩

theorem pieces_newline {hunks : List Patch.Hunk}
    (h : ∀ hunk ∈ hunks, ∀ change ∈ hunk.changes, Terminated change.value) :
    ∀ piece ∈ pieces hunks, piece ≠ [] ∧ '\n' ∉ piece.dropLast := by
  intro piece hpiece
  obtain ⟨hunk, hmem, rfl | ⟨change, hchange, rfl⟩⟩ := mem_pieces hpiece
  · rw [List.dropLast_concat]
    exact ⟨List.append_ne_nil_of_right_ne_nil _ (List.cons_ne_nil _ _), header_newline hunk⟩
  · have hterminated := h hunk hmem change hchange
    have hne : change.value ≠ [] := by
      intro hnil
      have hlast := hterminated.last
      rw [hnil] at hlast
      cases hlast with
      | inl hlast => cases hlast
      | inr hlast => cases hlast
    apply And.intro (List.cons_ne_nil _ _)
    rw [Patch.Change.line, List.dropLast_cons_of_ne_nil hne]
    intro hnewline
    cases List.mem_cons.mp hnewline with
    | inl hchar => exact (line_char change).1 hchar.symm
    | inr hvalue => exact hterminated.newline hvalue

theorem header_full (hunk : Patch.Hunk) (rest : Text) : isFull (hunk.header ++ rest) := rfl

theorem header_eq (hunk : Patch.Hunk) :
    ∃ rest, hunk.header = '@' :: '@' :: ' ' :: (rest ++ ['@']) := by
  apply Exists.intro ('-' :: (Patch.printRange hunk.oldStart hunk.oldLen ++
    ' ' :: '+' :: (Patch.printRange hunk.newStart hunk.newLen ++ [' ', '@'])))
  rw [Patch.Hunk.header]
  simp only [List.cons_append, List.append_assoc, List.nil_append]

theorem header_not_bare (hunk : Patch.Hunk) (body : List Text) :
    ¬ Hunk.bare ⟨hunk.header ++ ['\n'], body⟩ := by
  obtain ⟨rest, hrest⟩ := header_eq hunk
  rw [hrest]
  exact not_bare rest body

theorem header_isHeader (hunk : Patch.Hunk) : isHeader (hunk.header ++ ['\n']) := rfl

def stripped (hunk : Hunk) : Hunk :=
  ⟨strip hunk.header ++ ['\n'], hunk.body.map fun line => strip line ++ ['\n']⟩

theorem stripped_lines (hunk : Hunk) : (stripped hunk).header :: (stripped hunk).body =
    ((hunk.header :: hunk.body).map strip).map (· ++ ['\n']) := by
  rw [List.map_map]
  rfl

theorem strip_newlines {hunk : Hunk} (h : hunk.Valid) :
    ∀ line ∈ (hunk.header :: hunk.body).map strip, '\n' ∉ line := by
  intro line hline
  obtain ⟨line, hmem, rfl⟩ := List.mem_map.mp hline
  exact strip_newline (Lined.dropLast h.lined hmem).2

theorem stripped_valid {hunk : Hunk} (h : hunk.Valid) : (stripped hunk).Valid := by
  constructor
  · rw [stripped_lines]
    exact Hunk.lined_terminated _ (strip_newlines h)
  · obtain ⟨rest, hrest⟩ := isHeader_cons h.header
    rw [stripped, hrest, strip_cons (by decide) (by decide), strip_cons (by decide) (by decide)]
    rfl
  · intro line hline
    obtain ⟨line, hmem, rfl⟩ := List.mem_map.mp hline
    obtain ⟨c, rest, rfl, hnewline, hreturn, hbody⟩ := isBody_cons (h.body line hmem)
    rw [strip_cons hnewline hreturn]
    exact hbody _
  · exact fun hnil => h.ne_nil (List.map_eq_nil_iff.mp hnil)

theorem sections_emitted (hunks : List Hunk) (h : ∀ hunk ∈ hunks, hunk.Valid)
    (hfull : ∀ hunk ∈ hunks, isFull hunk.header ∧ ¬ hunk.bare) :
    sections (splitInclusive (hunks.flatMap (unlines ∘ Hunk.emitted))) = hunks.map stripped := by
  have hemitted : hunks.flatMap (unlines ∘ Hunk.emitted) = unlines ((hunkLines hunks).map strip) := by
    rw [unlines, hunkLines, List.map_flatMap, List.flatMap_assoc]
    apply List.flatMap_congr
    intro hunk hhunk
    rw [Function.comp_apply, Hunk.emitted, if_neg (hfull hunk hhunk).2, if_pos (hfull hunk hhunk).1]
    rfl
  have hlines : ((hunkLines hunks).map strip).map (· ++ ['\n']) = hunkLines (hunks.map stripped) := by
    rw [hunkLines, hunkLines, List.flatMap_map, List.map_flatMap, List.map_flatMap]
    exact List.flatMap_congr fun hunk _ => (stripped_lines hunk).symm
  rw [hemitted, splitInclusive_unlines, hlines]
  · apply sections_hunkLines
    exact List.forall_mem_map.mpr fun hunk hhunk => stripped_valid (h hunk hhunk)
  · intro line hline
    obtain ⟨line, hmem, rfl⟩ := List.mem_map.mp hline
    obtain ⟨hunk, hhunk, hmem⟩ := List.mem_flatMap.mp hmem
    exact strip_newlines (h hunk hhunk) _ (List.mem_map_of_mem hmem)

def normal (value : Text) : Text := strip value ++ ['\n']

theorem stripped_raw (hunk : Patch.Hunk) : stripped (raw hunk) = raw (hunk.map normal) := by
  have hheader : (hunk.map normal).header = hunk.header := by
    rw [Patch.Hunk.header, Patch.Hunk.header, Patch.Hunk.map_oldLen, Patch.Hunk.map_newLen]
    rfl
  have hstrip : strip (hunk.header ++ ['\n']) = hunk.header := by
    obtain ⟨rest, hrest⟩ := header_eq hunk
    have hlast : hunk.header.getLast? ≠ some '\r' := by
      rw [hrest]
      change (('@' :: '@' :: ' ' :: rest) ++ ['@']).getLast? ≠ _
      rw [List.getLast?_concat]
      decide
    rw [strip, List.getLast?_concat, if_pos rfl, List.dropLast_concat, stripCarriageReturn,
      if_neg hlast]
  have hbody : (hunk.changes.map Patch.Change.line).map (fun line => strip line ++ ['\n']) =
      (hunk.map normal).changes.map Patch.Change.line := by
    rw [Patch.Hunk.map, List.map_map, List.map_map]
    apply List.map_congr_left
    intro change _
    obtain ⟨hnewline, hreturn, -⟩ := line_char change
    rw [Function.comp_apply, Function.comp_apply, Patch.Change.line,
      strip_cons hnewline hreturn]
    rfl
  rw [stripped, raw, raw, hheader]
  dsimp only
  rw [hstrip, hbody]

theorem readHunk_raw (hunk : Patch.Hunk) :
    Patch.readHunk (raw hunk).header (raw hunk).body = some hunk := Patch.readHunk_print hunk _

theorem raw_valid {hunk : Patch.Hunk} (hlined : Lines.Lined '\n' ((raw hunk).header :: (raw hunk).body))
    (hne : hunk.changes ≠ []) : (raw hunk).Valid := by
  constructor
  · exact hlined
  · exact header_isHeader hunk
  · exact List.forall_mem_map.mpr fun change _ => isBody_line change
  · exact fun hnil => hne (List.map_eq_nil_iff.mp hnil)

theorem raw_lined {hunks : List Patch.Hunk} (h : Lines.Lined '\n' (pieces hunks)) :
    ∀ hunk ∈ hunks, Lines.Lined '\n' ((raw hunk).header :: (raw hunk).body) := by
  induction hunks with
  | nil => exact nofun
  | cons first hunks ih =>
    have hcons : pieces (first :: hunks) = ((raw first).header :: (raw first).body) ++ pieces hunks := rfl
    rw [hcons] at h
    intro hunk hhunk
    cases hhunk with
    | head => exact h.of_append
    | tail _ hhunk => exact ih h.of_append_right hunk hhunk

section

variable {hunks : List Patch.Hunk}
  (hterminated : ∀ hunk ∈ hunks, ∀ change ∈ hunk.changes, Terminated change.value)
include hterminated

theorem splitInclusive_toString (hne : hunks ≠ []) :
    splitInclusive (unifiedDiffToString hunks) =
      [['-', '-', '-', ' ', 'a', '\n'], ['+', '+', '+', ' ', 'b', '\n']] ++
        splitInclusive (pieces hunks).flatten := by
  rw [unifiedDiffToString_eq hne hterminated, splitInclusive, Lines.split_append]
  · rfl
  · exact Lines.closed_concat '\n' ['-', '-', '-', ' ', 'a', '\n', '+', '+', '+', ' ', 'b']

theorem sections_toString (hne : hunks ≠ [])
    (hstart : (splitInclusive (pieces hunks).flatten).takeWhile isBody = []) :
    sections (splitInclusive (unifiedDiffToString hunks)) =
      sections (splitInclusive (pieces hunks).flatten) := by
  rw [splitInclusive_toString hterminated hne, sections_append _ hstart]
  rfl

theorem hunksOf_toString (hlined : Lines.Lined '\n' (pieces hunks))
    (hchanges : ∀ hunk ∈ hunks, hunk.changes ≠ []) :
    hunksOf (unifiedDiffToString hunks) = hunks.map raw := by
  by_cases hne : hunks = []
  · rw [hne]
    rfl
  · have hvalid : ∀ hunk ∈ hunks.map raw, hunk.Valid := List.forall_mem_map.mpr fun hunk hhunk =>
      raw_valid (raw_lined hlined hunk hhunk) (hchanges hunk hhunk)
    have hsplit : splitInclusive (pieces hunks).flatten = pieces hunks := hlined.split_flatten '\n'
    have hstart : (splitInclusive (pieces hunks).flatten).takeWhile isBody = [] := by
      rw [hsplit]
      exact takeWhile_hunkLines _ hvalid
    have hany : (splitInclusive (unifiedDiffToString hunks)).any isHeader := by
      obtain ⟨hunk, rest, rfl⟩ := List.exists_cons_of_ne_nil hne
      rw [splitInclusive_toString hterminated hne, hsplit, List.any_append, Bool.or_eq_true]
      right
      apply List.any_eq_true.mpr
      exact ⟨(raw hunk).header, List.mem_cons_self, header_isHeader hunk⟩
    rw [hunksOf, if_pos hany, sections_toString hterminated hne hstart, hsplit, pieces,
      sections_hunkLines _ hvalid]
    apply List.filter_eq_self.mpr
    exact fun hunk hhunk => decide_eq_true (hvalid hunk hhunk).ne_nil

theorem line_of_pieces (hline : line ∈ splitInclusive (pieces hunks).flatten) :
    isBody line ∨ ∃ hunk ∈ hunks, line = hunk.header ++ ['\n'] := by
  have hpieces := pieces_newline hterminated
  obtain ⟨piece, hpiece, rest, rfl⟩ :=
    Lines.exists_piece '\n' (fun piece hpiece => (hpieces piece hpiece).2) hline
  obtain ⟨hunk, hmem, rfl | ⟨change, -, rfl⟩⟩ := mem_pieces hpiece
  · right
    apply Exists.intro hunk
    apply And.intro hmem
    have hnewline := (Lined.dropLast (Lines.lined_split '\n' _) hline).2
    cases rest with
    | nil => exact List.append_nil _
    | cons c rest =>
      rw [List.dropLast_append_of_ne_nil (List.cons_ne_nil _ _)] at hnewline
      exact absurd (List.mem_append_left _ (List.mem_append_right _ List.mem_cons_self)) hnewline
  · exact .inl (isBody_line ⟨change.tag, change.value ++ rest⟩)

theorem piece_of_open (hpiece : piece ∈ pieces hunks) (hopen : '\n' ∉ piece) :
    ∃ start, piece = start ++ ['\r'] := by
  obtain ⟨hunk, hmem, rfl | ⟨change, hchange, rfl⟩⟩ := mem_pieces hpiece
  · exact absurd (List.mem_append_right _ List.mem_cons_self) hopen
  · have hlast := (hterminated hunk hmem change hchange).last.resolve_left fun hlast =>
      hopen (List.mem_cons_of_mem _ (List.mem_of_getLast? hlast))
    obtain ⟨start, hstart⟩ := List.getLast?_eq_some_iff.mp hlast
    exact ⟨change.tag.char :: start, by rw [Patch.Change.line, hstart]; rfl⟩

omit hterminated in
theorem piece_head (hpiece : piece ∈ pieces hunks) (hc : c ∈ piece.head?) : c ≠ '\n' ∧ c ≠ '\r' := by
  obtain ⟨hunk, -, rfl | ⟨change, -, rfl⟩⟩ := mem_pieces hpiece
  · cases hc
    decide
  · cases hc
    exact ⟨(line_char change).1, (line_char change).2.1⟩

theorem exists_merged (hne : hunks ≠ []) (hnot : ¬ Lines.Lined '\n' (pieces hunks)) :
    (∀ hunk ∈ hunksOf (unifiedDiffToString hunks), isFull hunk.header ∧ ¬ hunk.bare) ∧
      ∃ hunk ∈ hunksOf (unifiedDiffToString hunks), ∃ line ∈ hunk.body, ∃ c, c ≠ '\n' ∧ c ≠ '\r' ∧
        ['\r', c] <:+: line := by
  obtain ⟨first, others, hcons⟩ := List.exists_cons_of_ne_nil hne
  have hsplit : ∃ rest, splitInclusive (pieces hunks).flatten = (first.header ++ ['\n']) :: rest := by
    rw [hcons]
    exact ⟨_, Lines.split_ended '\n' (by rw [List.dropLast_concat]; exact header_newline first)
      List.getLast?_concat _⟩
  obtain ⟨rest, hrest⟩ := hsplit
  have hstart : (splitInclusive (pieces hunks).flatten).takeWhile isBody = [] := by
    rw [hrest]
    rfl
  have hany : (splitInclusive (unifiedDiffToString hunks)).any isHeader := by
    rw [splitInclusive_toString hterminated hne, hrest, List.any_append, Bool.or_eq_true]
    right
    apply List.any_eq_true.mpr
    exact ⟨_, List.mem_cons_self, header_isHeader first⟩
  have hhunks : hunksOf (unifiedDiffToString hunks) =
      (sections (splitInclusive (pieces hunks).flatten)).filter (·.body ≠ []) := by
    rw [hunksOf, if_pos hany, sections_toString hterminated hne hstart]
  have hline {line : Text} (h : line ∈ splitInclusive (pieces hunks).flatten) :=
    line_of_pieces hterminated h
  rw [hhunks]
  constructor
  · intro hunk hhunk
    have hsection := (List.mem_filter.mp hhunk).1
    have hheader := (lined_section (Lines.lined_split '\n' _) hsection).2.1
    obtain ⟨header, body⟩ := hunk
    cases hline (header_mem hsection) with
    | inl hbody =>
      rw [isBody_of_isHeader hheader] at hbody
      cases hbody
    | inr hfull =>
      obtain ⟨hunk, -, rfl⟩ := hfull
      exact ⟨header_full hunk _, header_not_bare hunk body⟩
  · obtain ⟨piece, hpiece, next, hnext, c, hc, hopen, line, hmem, hwithin⟩ :=
      Lines.exists_merged '\n' (pieces_newline hterminated) hnot
    obtain ⟨start, rfl⟩ := piece_of_open hterminated hpiece hopen
    obtain ⟨hnewline, hreturn⟩ := piece_head hnext hc
    have hwithin' : ['\r', c] <:+: line := by
      rw [List.append_assoc] at hwithin
      exact (List.suffix_append _ _).isInfix.trans hwithin
    have hbody : isBody line := by
      apply (hline hmem).resolve_right
      rintro ⟨hunk, -, rfl⟩
      cases List.mem_append.mp (hwithin'.subset List.mem_cons_self) with
      | inl hmem => exact header_return hunk hmem
      | inr hmem => cases List.mem_singleton.mp hmem
    have hall : ∀ line ∈ splitInclusive (pieces hunks).flatten, isHeader line ∨ isBody line := by
      intro line hmem
      cases hline hmem with
      | inl hbody => exact Or.inr hbody
      | inr hheader =>
        obtain ⟨hunk, -, rfl⟩ := hheader
        exact Or.inl (header_isHeader hunk)
    have hsection := body_mem hall hmem hbody
    rw [hstart] at hsection
    obtain ⟨hunk, hhunk, hline⟩ := hsection.resolve_left List.not_mem_nil
    exact ⟨hunk, List.mem_filter.mpr ⟨hhunk, decide_eq_true (List.ne_nil_of_mem hline)⟩, line, hline,
      c, hnewline, hreturn, hwithin'⟩

end

theorem mapM_readHunk (hunks : List Patch.Hunk) :
    (hunks.map raw).mapM (fun hunk => Patch.readHunk hunk.header hunk.body) = some hunks := by
  induction hunks with
  | nil => rfl
  | cons hunk hunks ih =>
    rw [List.map_cons, List.mapM_cons, readHunk_raw, ih]
    rfl

section

variable {lib : Similar} (h : lib.Correct) (filePath old new : Text)
include h

theorem terminated_of_correct (hunk : Patch.Hunk)
    (hhunk : hunk ∈ lib.hunks (ensureNewline old) (ensureNewline new)) :
    ∀ change ∈ hunk.changes, Terminated change.value := by
  intro change hchange
  have happly := h.apply (ensureNewline old) (ensureNewline new)
  rw [h.lines] at happly
  cases Patch.applyHunks_mem happly hunk hhunk change hchange with
  | inl hold => exact tokenizeLines_terminated (ensureNewline_closed old) hold
  | inr hnew => exact tokenizeLines_terminated (ensureNewline_closed new) hnew

theorem patches_iff_read :
    Patches lib filePath old new ↔ ∃ hunks,
      readHunks ((hunksOf (unifiedDiffToString
        (lib.hunks (ensureNewline old) (ensureNewline new)))).flatMap (unlines ∘ Hunk.emitted)) =
        some hunks ∧
      Patch.applyHunks 0 hunks (tokenizeLines (ensureNewline old)) =
        some (tokenizeLines (ensureNewline new)) := by
  have hcreate : createUnifiedDiff lib filePath old new = _ := normalizeUnifiedDiff_eq _ _
  rw [Patches, h.lines, ← h.toText]
  constructor
  · rintro ⟨text, hunks, htext, hread, happly⟩
    rw [hcreate] at htext
    cases List.append_cancel_left htext
    exact ⟨hunks, hread, happly⟩
  · rintro ⟨hunks, hread, happly⟩
    exact ⟨_, hunks, hcreate, hread, happly⟩

theorem patches_iff_of_lined
    (hlined : Lines.Lined '\n' (pieces (lib.hunks (ensureNewline old) (ensureNewline new)))) :
    Patches lib filePath old new ↔
      ∀ hunk ∈ lib.hunks (ensureNewline old) (ensureNewline new), ∀ change ∈ hunk.changes,
        '\r' ∉ change.value := by
  have hterminated := terminated_of_correct h old new
  have happly := h.apply (ensureNewline old) (ensureNewline new)
  have hchanges := h.changes (ensureNewline old) (ensureNewline new)
  rw [patches_iff_read h]
  rw [h.lines] at happly
  generalize lib.hunks (ensureNewline old) (ensureNewline new) = hunks at hlined hterminated happly hchanges ⊢
  have hvalid : ∀ hunk ∈ hunks.map raw, hunk.Valid := List.forall_mem_map.mpr fun hunk hhunk =>
    raw_valid (raw_lined hlined hunk hhunk) (hchanges hunk hhunk)
  have hfull : ∀ hunk ∈ hunks.map raw, isFull hunk.header ∧ ¬ hunk.bare :=
    List.forall_mem_map.mpr fun hunk _ => ⟨header_full hunk _, header_not_bare hunk _⟩
  have hread : readHunks ((hunksOf (unifiedDiffToString hunks)).flatMap (unlines ∘ Hunk.emitted)) =
      some (hunks.map (Patch.Hunk.map normal)) := by
    have hraw : (hunks.map raw).map stripped = (hunks.map (Patch.Hunk.map normal)).map raw := by
      rw [List.map_map, List.map_map]
      exact List.map_congr_left fun hunk _ => stripped_raw hunk
    rw [readHunks, hunksOf_toString hterminated hlined hchanges, sections_emitted _ hvalid hfull,
      hraw, mapM_readHunk]
  rw [hread]
  constructor
  · rintro ⟨hunks', hhunks, hpatch⟩ hunk hhunk change hchange
    cases hhunks
    have hnormal := Patch.applyHunks_map happly hpatch hunk hhunk change hchange
    exact (hterminated hunk hhunk change hchange).strip_iff.mp hnormal
  · intro hnot
    have hmap : hunks.map (Patch.Hunk.map normal) = hunks := by
      rw [List.map_congr_left (g := id), List.map_id]
      intro hunk hhunk
      have hsame : hunk.changes.map (Patch.Change.map normal) = hunk.changes := by
        rw [List.map_congr_left (g := id), List.map_id]
        intro change hchange
        have hvalue : normal change.value = change.value :=
          (hterminated hunk hhunk change hchange).strip_iff.mpr (hnot hunk hhunk change hchange)
        rw [Patch.Change.map, hvalue]
        rfl
      rw [Patch.Hunk.map, hsame]
      rfl
    exact ⟨_, rfl, hmap.symm ▸ happly⟩

omit h in
theorem strip_within (hnewline : c ≠ '\n') (hreturn : c ≠ '\r') (hwithin : ['\r', c] <:+: line) :
    ['\r', c] <:+: strip line := by
  obtain ⟨start, rest, rfl⟩ := hwithin
  apply Exists.intro start
  apply Exists.intro (strip rest)
  have hrest : strip (['\r'] ++ c :: rest) = ['\r'] ++ c :: strip rest := by
    rw [strip_append hnewline, strip_cons hnewline hreturn]
  rw [List.append_assoc, List.append_assoc]
  exact ((strip_append (by decide) start (c :: rest)).trans (congrArg (start ++ ·) hrest)).symm

theorem lined_of_patches (hpatches : Patches lib filePath old new) :
    Lines.Lined '\n' (pieces (lib.hunks (ensureNewline old) (ensureNewline new))) := by
  by_contra hnot
  have hterminated := terminated_of_correct h old new
  obtain ⟨hunks', hread, happly⟩ := (patches_iff_read h filePath old new).mp hpatches
  generalize lib.hunks (ensureNewline old) (ensureNewline new) = hunks at hnot hterminated hread
  have hne : hunks ≠ [] := by
    rintro rfl
    exact hnot trivial
  obtain ⟨hfull, hunk, hhunk, line, hline, c, hnewline, hreturn, hwithin⟩ :=
    exists_merged hterminated hne hnot
  have hvalid (hunk : Hunk) (hhunk : hunk ∈ hunksOf (unifiedDiffToString hunks)) : hunk.Valid :=
    valid_of_mem hhunk
  rw [readHunks, sections_emitted _ hvalid hfull] at hread
  obtain ⟨hunk', hhunk', hread⟩ :=
    Patch.mapM_mem hread (stripped hunk) (List.mem_map_of_mem hhunk)
  obtain ⟨change, hchange, hchangeLine⟩ :=
    Patch.readHunk_mem hread (strip line ++ ['\n']) (List.mem_map_of_mem hline)
  have hterminated' : Terminated change.value := by
    cases Patch.applyHunks_mem happly hunk' hhunk' change hchange with
    | inl hold => exact tokenizeLines_terminated (ensureNewline_closed old) hold
    | inr hnew => exact tokenizeLines_terminated (ensureNewline_closed new) hnew
  have hvalue : ['\r', c] <:+: change.line := by
    rw [← hchangeLine]
    exact (strip_within hnewline hreturn hwithin).trans (List.prefix_append _ _).isInfix
  cases List.infix_cons_iff.mp hvalue with
  | inl hbegins => exact (line_char change).2.1 (List.cons_prefix_cons.mp hbegins).1.symm
  | inr hwithin => exact hnewline (hterminated'.carriage c hwithin)

theorem lined_of_lines (hlines : ∀ hunk ∈ lib.hunks (ensureNewline old) (ensureNewline new),
    ∀ change ∈ hunk.changes, '\r' ∉ change.value) :
    Lines.Lined '\n' (pieces (lib.hunks (ensureNewline old) (ensureNewline new))) := by
  by_contra hnot
  have hterminated := terminated_of_correct h old new
  generalize lib.hunks (ensureNewline old) (ensureNewline new) = hunks at hnot hterminated hlines
  obtain ⟨piece, hpiece, -, -, -, -, hopen, -⟩ :=
    Lines.exists_merged '\n' (pieces_newline hterminated) hnot
  obtain ⟨start, hstart⟩ := piece_of_open hterminated hpiece hopen
  have hreturn : '\r' ∈ piece := hstart ▸ List.mem_append_right _ List.mem_cons_self
  obtain ⟨hunk, hmem, rfl | ⟨change, hchange, rfl⟩⟩ := mem_pieces hpiece
  · exact hopen (List.mem_append_right _ List.mem_cons_self)
  · cases List.mem_cons.mp hreturn with
    | inl hchar => exact (line_char change).2.1 hchar.symm
    | inr hvalue => exact hlines hunk hmem change hchange hvalue

/-- A diff is a patch if and only if no line in its hunks has a carriage return. -/
theorem createUnifiedDiff_patches_iff :
    Patches lib filePath old new ↔
      ∀ hunk ∈ lib.hunks (ensureNewline old) (ensureNewline new), ∀ change ∈ hunk.changes,
        '\r' ∉ change.value := by
  constructor
  · intro hpatches
    exact (patches_iff_of_lined h filePath old new (lined_of_patches h filePath old new hpatches)).mp
      hpatches
  · intro hlines
    exact (patches_iff_of_lined h filePath old new (lined_of_lines h old new hlines)).mpr hlines

end

def replaceAll : Similar where
  lines := tokenizeLines
  hunks old new :=
    if tokenizeLines old = tokenizeLines new then []
    else [⟨0, 0, (tokenizeLines old).map (⟨.delete, ·⟩) ++ (tokenizeLines new).map (⟨.insert, ·⟩)⟩]
  toText := unifiedDiffToString

theorem replaceAll_correct : replaceAll.Correct := by
  refine ⟨rfl, rfl, ?_, ?_⟩
  · intro old new
    dsimp only [replaceAll]
    split
    · next heq => rw [Patch.applyHunks, heq]
    · have hdelete := Patch.applyChanges_delete (tokenizeLines old)
        ((tokenizeLines new).map (⟨.insert, ·⟩)) []
      rw [List.append_nil, Patch.applyChanges_insert] at hdelete
      rw [Patch.applyHunks, if_pos ⟨Nat.le_refl _, Nat.zero_le _⟩]
      dsimp only
      rw [Nat.sub_self, List.drop_zero, hdelete, List.take_zero]
      exact congrArg some (List.append_nil _)
  · intro old new hunk hhunk
    dsimp only [replaceAll] at hhunk
    split at hhunk
    · cases hhunk
    · next hne =>
      cases List.mem_singleton.mp hhunk
      intro hnil
      obtain ⟨hold, hnew⟩ := List.append_eq_nil_iff.mp hnil
      rw [List.map_eq_nil_iff.mp hold, List.map_eq_nil_iff.mp hnew] at hne
      exact hne rfl

theorem createUnifiedDiff_patches_sample :
    Patches replaceAll ['f'] ['a', '\n'] ['b', '\n'] :=
  (createUnifiedDiff_patches_iff replaceAll_correct ['f'] ['a', '\n'] ['b', '\n']).mpr (by decide)

/-- A carriage return that is added is lost. -/
theorem createUnifiedDiff_not_patches : ¬ ∀ lib : Similar,
    lib.Correct → ∀ filePath old new, Patches lib filePath old new := by
  intro h
  have hpatches := h replaceAll replaceAll_correct ['f'] ['a', '\n'] ['a', '\r', '\n']
  have hlined := lined_of_patches replaceAll_correct _ _ _ hpatches
  have hlines := (patches_iff_of_lined replaceAll_correct _ _ _ hlined).mp hpatches
  revert hlines
  decide

end Cdesktop.CreateDiff
