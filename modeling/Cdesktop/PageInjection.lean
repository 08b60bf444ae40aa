import Cdesktop.TextSearch

/-! The scripts that the preview proxy puts into a page. -/

namespace Cdesktop.PageInjection
open TextSearch
set_option autoImplicit true

abbrev Text := List Char

def headTag : Text := ['<', 'h', 'e', 'a', 'd', '>']

def bodyTag : Text := ['<', '/', 'b', 'o', 'd', 'y', '>']

def tagChars : Text := headTag ++ bodyTag

def isAscii (c : Char) : Bool := c.toNat < 128

/-- `str::to_lowercase`, with what each character becomes between the texts before and behind it.
What becomes of a character that is not in ASCII has no character of the tags in it, and is as long
wherever the character stands. -/
structure Lowercase where
  image : Text → Char → Text → Text
  ascii : ∀ before c after, isAscii c → image before c after = [c.toLower]
  other : ∀ before c after, isAscii c = false → ∀ d ∈ image before c after, d ∉ tagChars
  nonempty : ∀ before c after, image before c after ≠ []
  sized : ∀ before c after, size (image before c after) = size (image [] c [])

namespace Lowercase

variable (lower : Lowercase)

def runFrom (before : Text) : Text → Text
  | [] => []
  | c :: after => lower.image before c after ++ runFrom (before ++ [c]) after

def run (text : Text) : Text := lower.runFrom [] text

end Lowercase

def script (source : Text) : Text := "<script>".toList ++ source ++ "</script>".toList

/-- The sources of the scripts. That of bippy is in ASCII and has no end of a body in it. -/
structure Scripts where
  bippyBundle : Text
  erudaInit : Text
  devtoolsScript : Text
  clickToComponentScript : Text
  navScriptDisabled : Bool
  bippy_ascii : ∀ c ∈ script bippyBundle, isAscii c
  bippy_body : rfindAt bodyTag ((script bippyBundle).map Char.toLower) = none

def Scripts.bippyTag (s : Scripts) : Text := script s.bippyBundle

/-- The scripts before the end of the body. -/
def Scripts.scripts (s : Scripts) : Text :=
  "<script src=\"https://cdn.jsdelivr.net/npm/eruda@3.4.3/eruda.js\"></script>".toList ++
    script s.erudaInit ++ (if s.navScriptDisabled then [] else script s.devtoolsScript) ++
    script s.clickToComponentScript

/-- `insert_str`. It panics where the bytes before do not end with a character. -/
def insertStr (text : Text) (idx : Nat) (string : Text) : Option Text :=
  (splitAt text idx).map fun (before, after) => before ++ string ++ after

section Inject

variable (lower : Lowercase) (s : Scripts)

def headEnd (html : Text) : Option Nat := (find headTag (lower.run html)).map (· + size headTag)

def injectHead (html : Text) : Option Text :=
  match headEnd lower html with
  | some pos => insertStr html pos s.bippyTag
  | none => some html

def bodyStart (html : Text) : Option Nat := rfind bodyTag (lower.run html)

def injectBody (html : Text) : Option Text :=
  match bodyStart lower html with
  | some pos => insertStr html pos s.scripts
  | none => some html

def inject (html : Text) : Option Text := (injectHead lower s html).bind (injectBody lower s)

end Inject

/-! What the page is to be. -/

/-- How many characters are before the first `<head>`, in capitals or not. -/
def headAt (html : Text) : Option Nat := findAt headTag (html.map Char.toLower)

/-- How many are before the last `</body>`. -/
def bodyAt (html : Text) : Option Nat := rfindAt bodyTag (html.map Char.toLower)

/-- The first script is behind the first `<head>`, the others are before the last `</body>`. -/
def expected (s : Scripts) (html : Text) : Text :=
  match (headAt html).map (· + headTag.length), bodyAt html with
  | none, none => html
  | some n, none => html.take n ++ s.bippyTag ++ html.drop n
  | none, some m => html.take m ++ s.scripts ++ html.drop m
  | some n, some m =>
    if n ≤ m then
      html.take n ++ s.bippyTag ++ (html.drop n).take (m - n) ++ s.scripts ++ html.drop m
    else html.take m ++ s.scripts ++ (html.drop m).take (n - m) ++ s.bippyTag ++ html.drop n

/-- The bytes of the first script, where it is before the last `</body>`. -/
def shift (s : Scripts) (html : Text) (m : Nat) : Nat :=
  match (headAt html).map (· + headTag.length) with
  | some n => if n ≤ m then size s.bippyTag else 0
  | none => 0

structure Injects (lower : Lowercase) (s : Scripts) (html : Text) : Prop where
  head : headEnd lower html =
    (headAt html).map fun n => size (html.take (n + headTag.length))
  body : ∀ html', injectHead lower s html = some html' →
    bodyStart lower html' = (bodyAt html).map fun m => size (html.take m) + shift s html m
  page : inject lower s html = some (expected s html)

def Preserved (lower : Lowercase) (text : Text) : Prop := size (lower.run text) = size text

/-! Where the tags are in the lower case of a text. -/

theorem toLower_of_not_ascii (h : isAscii c = false) : c.toLower = c := by
  have hle : ¬ c.toNat < 128 := of_decide_eq_false h
  have hnot : ¬ (c.val ≥ 'A'.val ∧ c.val ≤ 'Z'.val) := by
    rintro ⟨-, hz⟩
    have hval : c.toNat ≤ 90 := UInt32.le_iff_toNat_le.mp hz
    omega
  exact dif_neg hnot

theorem isAscii_toLower (h : isAscii c) : isAscii c.toLower := by
  have hlt : c.toNat < 128 := of_decide_eq_true h
  delta Char.toLower
  split
  · next hupper =>
    have hz : c.toNat ≤ 90 := UInt32.le_iff_toNat_le.mp hupper.2
    have hval : (c.val + ('a'.val - 'A'.val)).toNat = c.toNat + 32 := by
      rw [UInt32.toNat_add]
      change (c.toNat + 32) % 2 ^ 32 = _
      omega
    apply decide_eq_true
    change (c.val + ('a'.val - 'A'.val)).toNat < 128
    omega
  · exact h

theorem utf8Size_of_ascii (h : isAscii c) : c.utf8Size = 1 := by
  have hlt : c.toNat < 128 := of_decide_eq_true h
  have hle : c.val ≤ UInt32.ofNatLT 0x7F (by decide) := by
    apply UInt32.le_iff_toNat_le.mpr
    change c.toNat ≤ 127
    omega
  rw [Char.utf8Size, if_pos hle]

theorem tagChars_ascii (h : c ∈ tagChars) : isAscii c := List.all_eq_true.mp rfl c h

namespace Lowercase

variable (lower : Lowercase)

def bytes (text : Text) : Nat := (text.map fun c => size (lower.image [] c [])).sum

theorem size_runFrom (before text : Text) : size (lower.runFrom before text) = lower.bytes text := by
  induction text generalizing before with
  | nil => rfl
  | cons c text ih =>
    rw [runFrom, size_append, ih, lower.sized]
    rfl

theorem bytes_append (text text' : Text) : lower.bytes (text ++ text') = lower.bytes text + lower.bytes text' := by
  rw [bytes, List.map_append, List.sum_append]
  rfl

theorem bytes_ascii (h : ∀ c ∈ text, isAscii c) : lower.bytes text = size text := by
  induction text with
  | nil => rfl
  | cons c text ih =>
    have hc := h c List.mem_cons_self
    rw [size_cons, ← ih fun d hd => h d (List.mem_cons_of_mem c hd), bytes, List.map_cons,
      List.sum_cons, lower.ascii _ _ _ hc, utf8Size_of_ascii hc]
    change size [c.toLower] + lower.bytes text = _
    rw [size_cons, utf8Size_of_ascii (isAscii_toLower hc)]
    rfl

theorem prefix_runFrom {tag : Text} (htag : ∀ c ∈ tag, c ∈ tagChars) (before text : Text) :
    tag <+: lower.runFrom before text ↔ tag <+: text.map Char.toLower := by
  induction tag generalizing before text with
  | nil => exact iff_of_true (List.nil_prefix) (List.nil_prefix)
  | cons d tag ih =>
    cases text with
    | nil => rfl
    | cons c text =>
      rw [runFrom, List.map_cons, List.cons_prefix_cons]
      cases hascii : isAscii c with
      | true =>
        rw [lower.ascii _ _ _ hascii, List.singleton_append, List.cons_prefix_cons,
          ih fun e he => htag e (List.mem_cons_of_mem d he)]
      | false =>
        obtain ⟨e, image, himage⟩ := List.exists_cons_of_ne_nil (lower.nonempty before c text)
        have hd := htag d List.mem_cons_self
        apply iff_of_false
        · rw [himage, List.cons_append, List.cons_prefix_cons]
          rintro ⟨rfl, -⟩
          exact lower.other before c text hascii d (himage ▸ List.mem_cons_self) hd
        · rintro ⟨rfl, -⟩
          rw [toLower_of_not_ascii hascii] at hd
          rw [tagChars_ascii hd] at hascii
          cases hascii

theorem map_bytes_cons (found : Option Nat) (c : Char) (text : Text) {k : Nat}
    (hk : k = size (lower.image [] c [])) :
    (found.map fun n => lower.bytes (text.take n)).map (k + ·) =
      (found.map (· + 1)).map fun n => lower.bytes ((c :: text).take n) := by
  rw [Option.map_map, Option.map_map, hk]
  rfl

section
variable {tag : Text} (htag : ∀ c ∈ tag, c ∈ tagChars)
include htag

theorem image_ne_head {c : Char} (hascii : isAscii c = false) (before text : Text) :
    ∀ e ∈ lower.image before c text, tag.head? ≠ some e := fun e he hhead =>
  lower.other before c text hascii e he (htag e (List.mem_of_mem_head? hhead))

theorem not_prefix_runFrom {c : Char} (hascii : isAscii c = false) (hne : tag ≠ [])
    (before text : Text) : ¬ tag <+: lower.runFrom before (c :: text) := by
  obtain ⟨e, image, himage⟩ := List.exists_cons_of_ne_nil (lower.nonempty before c text)
  rw [runFrom, himage]
  exact not_prefix_of_head
    (lower.image_ne_head htag hascii before text e (himage ▸ List.mem_cons_self)) hne _

theorem find_runFrom (hne : tag ≠ []) (before text : Text) :
    find tag (lower.runFrom before text) =
      (findAt tag (text.map Char.toLower)).map fun n => lower.bytes (text.take n) := by
  induction text generalizing before with
  | nil =>
    rw [List.map_nil, findAt, if_neg hne]
    change find tag [] = none
    rw [find, findAt, if_neg hne]
    rfl
  | cons c text ih =>
    have hbegins := lower.prefix_runFrom htag before (c :: text)
    rw [List.map_cons] at hbegins
    rw [List.map_cons, findAt]
    cases hascii : isAscii c with
    | true =>
      rw [runFrom, lower.ascii _ _ _ hascii, List.singleton_append] at hbegins ⊢
      rw [find_cons, ih]
      split
      · next hmatch =>
        rw [if_pos (hbegins.mp hmatch)]
        rfl
      · next hmatch =>
        rw [if_neg fun h => hmatch (hbegins.mpr h)]
        exact lower.map_bytes_cons _ c text (by rw [lower.ascii _ _ _ hascii]; rfl)
    | false =>
      rw [if_neg (hbegins.not.mp (lower.not_prefix_runFrom htag hascii hne before text)), runFrom,
        find_skip (lower.image_ne_head htag hascii before text) hne, ih]
      exact lower.map_bytes_cons _ c text (lower.sized ..)

theorem rfind_runFrom (hne : tag ≠ []) (before text : Text) :
    rfind tag (lower.runFrom before text) =
      (rfindAt tag (text.map Char.toLower)).map fun n => lower.bytes (text.take n) := by
  induction text generalizing before with
  | nil =>
    rw [List.map_nil, rfindAt, if_neg hne]
    change rfind tag [] = none
    rw [rfind, rfindAt, if_neg hne]
    rfl
  | cons c text ih =>
    have hbegins := lower.prefix_runFrom htag before (c :: text)
    rw [List.map_cons] at hbegins
    rw [List.map_cons, rfindAt_cons, Option.map_or]
    cases hascii : isAscii c with
    | true =>
      rw [runFrom, lower.ascii _ _ _ hascii, List.singleton_append] at hbegins ⊢
      rw [rfind_cons, ih,
        lower.map_bytes_cons _ c text (by rw [lower.ascii _ _ _ hascii]; rfl)]
      split
      · next hmatch =>
        rw [if_pos (hbegins.mp hmatch)]
        rfl
      · next hmatch =>
        rw [if_neg fun h => hmatch (hbegins.mpr h)]
        rfl
    | false =>
      rw [if_neg (hbegins.not.mp (lower.not_prefix_runFrom htag hascii hne before text)), runFrom,
        rfind_skip (lower.image_ne_head htag hascii before text) hne, ih, Option.map_none,
        Option.or_none]
      exact lower.map_bytes_cons _ c text (lower.sized ..)

end

end Lowercase

/-! What the places are in the page. -/

theorem headTag_chars : ∀ c ∈ headTag, c ∈ tagChars := fun _ => List.mem_append_left _

theorem bodyTag_chars : ∀ c ∈ bodyTag, c ∈ tagChars := fun _ => List.mem_append_right _

theorem headTag_ne_nil : headTag ≠ [] := List.cons_ne_nil _ _

theorem bodyTag_ne_nil : bodyTag ≠ [] := List.cons_ne_nil _ _

theorem ascii_of_lower {text : Text} (h : ∀ c ∈ text.map Char.toLower, c ∈ tagChars) : ∀ c ∈ text, isAscii c := by
  intro c hc
  have htag := h _ (List.mem_map_of_mem hc)
  cases hascii : isAscii c with
  | true => rfl
  | false =>
    rw [toLower_of_not_ascii hascii] at htag
    rw [tagChars_ascii htag] at hascii
    cases hascii

theorem size_ascii (h : ∀ c ∈ text, isAscii c) : size text = text.length := by
  induction text with
  | nil => rfl
  | cons c text ih =>
    rw [size_cons, ih fun d hd => h d (List.mem_cons_of_mem c hd),
      utf8Size_of_ascii (h c List.mem_cons_self), List.length_cons, Nat.add_comm]

theorem exists_tag {html tag : Text} (h : tag <+: (html.map Char.toLower).drop n) :
    ∃ found, html.take (n + tag.length) = html.take n ++ found ∧ found.map Char.toLower = tag := by
  refine ⟨(html.drop n).take tag.length, List.take_add, ?_⟩
  rw [List.map_take, List.map_drop]
  exact (List.prefix_iff_eq_take.mp h).symm

theorem size_take_head (h : headAt html = some n) :
    size (html.take (n + headTag.length)) = size (html.take n) + size headTag := by
  obtain ⟨found, htake, hfound⟩ := exists_tag (findAt_begins headTag_ne_nil h)
  have hlength := congrArg List.length hfound
  rw [List.length_map] at hlength
  have hascii := ascii_of_lower fun c hc => headTag_chars c (hfound ▸ hc)
  rw [htake, size_append, size_ascii hascii, hlength]
  rfl

theorem length_take_head (h : headAt html = some n) :
    (html.take (n + headTag.length)).length = n + headTag.length := by
  have hle := (findAt_begins headTag_ne_nil h).length_le
  rw [List.length_drop, List.length_map] at hle
  have hpos : headTag.length = 6 := rfl
  rw [List.length_take]
  omega

theorem take_head_last (h : headAt html = some n) :
    ((html.take (n + headTag.length)).map Char.toLower).getLast? = some '>' := by
  obtain ⟨found, htake, hfound⟩ := exists_tag (findAt_begins headTag_ne_nil h)
  rw [htake, List.map_append, hfound]
  exact List.getLast?_append_of_ne_nil _ (List.cons_ne_nil _ _)

section Points

variable (lower : Lowercase) (s : Scripts)

theorem bytes_bippy : lower.bytes s.bippyTag = size s.bippyTag :=
  lower.bytes_ascii s.bippy_ascii

theorem headEnd_eq (html : Text) : headEnd lower html =
    (headAt html).map fun n => lower.bytes (html.take n) + size headTag := by
  rw [headEnd, Lowercase.run, lower.find_runFrom headTag_chars headTag_ne_nil, Option.map_map]
  rfl

theorem bodyStart_eq (html : Text) : bodyStart lower html =
    (bodyAt html).map fun m => lower.bytes (html.take m) :=
  lower.rfind_runFrom bodyTag_chars bodyTag_ne_nil [] html

theorem preserved_iff (text : Text) : Preserved lower text ↔ lower.bytes text = size text := by
  rw [Preserved, Lowercase.run, lower.size_runFrom]

theorem headEnd_iff (html : Text) :
    headEnd lower html = (headAt html).map (fun n => size (html.take (n + headTag.length))) ↔
      ∀ n ∈ headAt html, Preserved lower (html.take n) := by
  rw [headEnd_eq]
  cases hhead : headAt html with
  | none => exact iff_of_true rfl fun n hn => nomatch hn
  | some n =>
    constructor
    · rintro heq m ⟨⟩
      have hsize : _ = size (html.take (n + headTag.length)) := Option.some.inj heq
      rw [size_take_head hhead] at hsize
      exact (preserved_iff ..).mpr (Nat.add_right_cancel hsize)
    · intro h
      rw [Option.map_some, Option.map_some, (preserved_iff ..).mp (h n rfl), size_take_head hhead]

def headed (html : Text) : Text :=
  match headAt html with
  | some n => html.take (n + headTag.length) ++ s.bippyTag ++ html.drop (n + headTag.length)
  | none => html

theorem injectHead_eq (h : ∀ n ∈ headAt html, Preserved lower (html.take n)) :
    injectHead lower s html = some (headed s html) := by
  rw [injectHead, (headEnd_iff lower html).mpr h, headed]
  cases headAt html with
  | none => rfl
  | some n =>
    dsimp only [Option.map_some]
    rw [insertStr, splitAt_take]
    rfl

theorem script_last (source : Text) : ((script source).map Char.toLower).getLast? = some '>' := by
  have hlast : ("</script>".toList.map Char.toLower).getLast? = some '>' := by decide +kernel
  unfold script
  rw [List.map_append, List.getLast?_append, hlast]
  rfl

theorem bodyTag_last : '>' ∉ bodyTag.dropLast := by decide

theorem bodyAt_append {text : Text} (htext : (text.map Char.toLower).getLast? = some '>')
    (rest : Text) :
    bodyAt (text ++ rest) = ((bodyAt rest).map (text.length + ·)).or (bodyAt text) := by
  rw [bodyAt, List.map_append, rfindAt_append bodyTag_last bodyTag_ne_nil (Or.inr htext),
    List.length_map]
  rfl

theorem bodyAt_bippy {text : Text} (htext : (text.map Char.toLower).getLast? = some '>') :
    bodyAt (text ++ s.bippyTag) = bodyAt text := by
  rw [bodyAt_append htext, bodyAt, Scripts.bippyTag, s.bippy_body]
  rfl

theorem bodyAt_le (h : bodyAt text = some m) : m + bodyTag.length ≤ text.length := by
  have hle := (rfindAt_begins bodyTag_ne_nil h).length_le
  have hpos : bodyTag.length = 7 := rfl
  rw [List.length_drop, List.length_map] at hle
  omega

theorem headed_none (h : bodyAt html = none) :
    bodyAt (headed s html) = none ∧ expected s html = headed s html := by
  rw [headed, expected, h]
  cases hhead : headAt html with
  | none => exact ⟨h, rfl⟩
  | some n =>
    refine ⟨?_, rfl⟩
    have hlast := take_head_last hhead
    have hboth := bodyAt_append hlast (html.drop (n + headTag.length))
    rw [List.take_append_drop, h] at hboth
    obtain ⟨hafter, hbefore⟩ := Option.or_eq_none_iff.mp hboth.symm
    dsimp only
    rw [bodyAt_append, Option.map_eq_none_iff.mp hafter, bodyAt_bippy s hlast, hbefore]
    · rfl
    · rw [List.map_append, List.getLast?_append, Scripts.bippyTag, script_last]
      rfl

theorem bodyAt_cases (hhead : headAt html = some n) (h : bodyAt html = some m) :
    (∃ k, m = n + headTag.length + k ∧ bodyAt (html.drop (n + headTag.length)) = some k) ∨
    (m < n + headTag.length ∧ bodyAt (html.drop (n + headTag.length)) = none ∧
      bodyAt (html.take (n + headTag.length)) = some m) := by
  have hboth := bodyAt_append (take_head_last hhead) (html.drop (n + headTag.length))
  rw [List.take_append_drop, h, length_take_head hhead] at hboth
  cases hafter : bodyAt (html.drop (n + headTag.length)) with
  | some k =>
    rw [hafter] at hboth
    exact .inl ⟨k, Option.some.inj hboth, rfl⟩
  | none =>
    rw [hafter] at hboth
    have hbefore : bodyAt (html.take (n + headTag.length)) = some m := hboth.symm
    have hle := bodyAt_le hbefore
    have hpos : bodyTag.length = 7 := rfl
    rw [length_take_head hhead] at hle
    exact .inr ⟨by omega, rfl, hbefore⟩

theorem bodyAt_headed (hhead : headAt html = some n) :
    bodyAt (html.take (n + headTag.length) ++ s.bippyTag ++ html.drop (n + headTag.length)) =
      ((bodyAt (html.drop (n + headTag.length))).map
        ((html.take (n + headTag.length) ++ s.bippyTag).length + ·)).or
        (bodyAt (html.take (n + headTag.length))) := by
  rw [bodyAt_append, bodyAt_bippy s (take_head_last hhead)]
  rw [List.map_append, List.getLast?_append, Scripts.bippyTag, script_last]
  rfl

theorem headed_some (h : bodyAt html = some m) :
    ∃ before after, headed s html = before ++ after ∧
      before ++ s.scripts ++ after = expected s html ∧
      bodyAt (headed s html) = some before.length ∧
      size before = size (html.take m) + shift s html m ∧
      lower.bytes before = lower.bytes (html.take m) + shift s html m := by
  rw [headed, expected, shift, h]
  cases hhead : headAt html with
  | none =>
    have hle := bodyAt_le h
    refine ⟨html.take m, html.drop m, (List.take_append_drop ..).symm, rfl, ?_, rfl, rfl⟩
    rw [List.length_take, Nat.min_eq_left (by omega)]
    exact h
  | some n =>
    dsimp only [Option.map_some]
    rw [bodyAt_headed s hhead]
    obtain ⟨k, rfl, hafter⟩ | ⟨hlt, hafter, hbefore⟩ := bodyAt_cases hhead h
    · have hle := bodyAt_le hafter
      have htake : html.take (n + headTag.length + k) =
        html.take (n + headTag.length) ++ (html.drop (n + headTag.length)).take k := List.take_add
      refine ⟨html.take (n + headTag.length) ++ s.bippyTag ++ (html.drop (n + headTag.length)).take k,
        html.drop (n + headTag.length + k), ?_, ?_, ?_, ?_, ?_⟩
      · have hdrop := List.take_append_drop k (html.drop (n + headTag.length))
        rw [List.drop_drop] at hdrop
        rw [List.append_assoc _ (List.take ..), hdrop]
      · rw [if_pos (Nat.le_add_right ..), Nat.add_sub_cancel_left]
      · have htaken : ((html.drop (n + headTag.length)).take k).length = k := by
          rw [List.length_take, Nat.min_eq_left (by omega)]
        rw [hafter, Option.map_some, Option.some_or]
        nth_rewrite 1 [← htaken]
        exact congrArg some List.length_append.symm
      · rw [if_pos (Nat.le_add_right ..), htake, size_append, size_append, size_append]
        omega
      · rw [if_pos (Nat.le_add_right ..), htake, lower.bytes_append, lower.bytes_append,
          lower.bytes_append, bytes_bippy]
        omega
    · obtain ⟨k, hk⟩ := Nat.exists_eq_add_of_lt hlt
      have htake : html.take (n + headTag.length) = html.take m ++ (html.drop m).take (k + 1) := by
        rw [hk, Nat.add_assoc, List.take_add]
      have hnot : ¬ n + headTag.length ≤ m := Nat.not_le_of_lt hlt
      have hle := bodyAt_le h
      refine ⟨html.take m, (html.drop m).take (k + 1) ++ s.bippyTag ++ html.drop (n + headTag.length),
        ?_, ?_, ?_, ?_, ?_⟩
      · rw [htake]
        simp only [List.append_assoc]
      · rw [if_neg hnot]
        have hsub : n + headTag.length - m = k + 1 := by omega
        rw [hsub]
        simp only [List.append_assoc]
      · rw [hafter, hbefore, List.length_take, Nat.min_eq_left (by omega)]
        rfl
      · rw [if_neg hnot]
        rfl
      · rw [if_neg hnot]
        rfl

theorem injectBody_eq (h : bodyAt html = some m) (hm : Preserved lower (html.take m)) :
    bodyStart lower (headed s html) = some (size (html.take m) + shift s html m) ∧
    injectBody lower s (headed s html) = some (expected s html) := by
  obtain ⟨before, after, hsplit, hexpected, hbody, hsize, hbytes⟩ := headed_some lower s h
  have hstart : bodyStart lower (headed s html) = some (size before) := by
    rw [bodyStart_eq, hbody, hsplit, Option.map_some, List.take_left, hbytes,
      (preserved_iff ..).mp hm, hsize]
  refine ⟨hstart.trans (congrArg some hsize), ?_⟩
  rw [injectBody, hstart]
  dsimp only
  rw [insertStr, hsplit, splitAt_append, ← hexpected]
  rfl

/-- The scripts are put where they are to be when what is before them is as long in lower case. -/
theorem inject_iff (html : Text) :
    Injects lower s html ↔
      (∀ n ∈ headAt html, Preserved lower (html.take n)) ∧
      (∀ m ∈ bodyAt html, Preserved lower (html.take m)) := by
  constructor
  · intro h
    have hhead := (headEnd_iff lower html).mp h.head
    refine ⟨hhead, fun m hm => ?_⟩
    have hm : bodyAt html = some m := hm
    have hstart := h.body _ (injectHead_eq lower s hhead)
    obtain ⟨before, after, hsplit, -, hbody, -, hbytes⟩ := headed_some lower s hm
    rw [bodyStart_eq, hbody, hsplit, hm, Option.map_some, Option.map_some, List.take_left,
      hbytes] at hstart
    exact (preserved_iff ..).mpr (Nat.add_right_cancel (Option.some.inj hstart))
  · rintro ⟨hhead, hbody⟩
    have heq := injectHead_eq lower s hhead
    cases hm : bodyAt html with
    | none =>
      obtain ⟨hnone, hexpected⟩ := headed_none s hm
      have hstart : bodyStart lower (headed s html) = none := by
        rw [bodyStart_eq, hnone]
        rfl
      constructor
      · exact (headEnd_iff lower html).mpr hhead
      · intro html' hhtml'
        cases Option.some.inj (heq.symm.trans hhtml')
        rw [hstart, hm]
        rfl
      · rw [inject, heq, Option.bind_some, injectBody, hstart, hexpected]
    | some m =>
      obtain ⟨hstart, hpage⟩ := injectBody_eq lower s hm (hbody m hm)
      constructor
      · exact (headEnd_iff lower html).mpr hhead
      · intro html' hhtml'
        cases Option.some.inj (heq.symm.trans hhtml')
        rw [hstart, hm]
        rfl
      · rw [inject, heq, Option.bind_some, hpage]

end Points

def dottedImage (c : Char) : Text :=
  if isAscii c then [c.toLower] else if c = 'İ' then ['i', '\u0307'] else [c]

theorem dottedImage_other (hascii : isAscii c = false) : ∀ d ∈ dottedImage c, d ∉ tagChars := by
  rw [dottedImage, hascii, if_neg Bool.false_ne_true]
  split
  · rw [List.forall_mem_cons, List.forall_mem_singleton]
    decide
  · intro d hd htag
    cases List.mem_singleton.mp hd
    rw [tagChars_ascii htag] at hascii
    cases hascii

def dotted : Lowercase where
  image _ c _ := dottedImage c
  ascii _ _ _ hascii := if_pos hascii
  other _ _ _ hascii := dottedImage_other hascii
  nonempty _ c _ := by
    rw [dottedImage]
    split <;> [skip; split] <;> exact List.cons_ne_nil _ _
  sized _ _ _ := rfl

def emptyScripts : Scripts where
  bippyBundle := []
  erudaInit := []
  devtoolsScript := []
  clickToComponentScript := []
  navScriptDisabled := false
  bippy_ascii := List.all_eq_true.mp (by decide +kernel)
  bippy_body := by decide +kernel

/-- A text that gets longer puts the first script into the middle of a character. -/
theorem inject_dotted :
    inject dotted emptyScripts ['İ', '<', 'h', 'e', 'a', 'd', '>', 'é'] = none ∧
    ¬ Injects dotted emptyScripts ['İ', '<', 'h', 'e', 'a', 'd', '>', 'é'] := by
  have hnone : inject dotted emptyScripts ['İ', '<', 'h', 'e', 'a', 'd', '>', 'é'] = none := by
    decide +kernel
  refine ⟨hnone, fun h => ?_⟩
  have hpage := h.page
  rw [hnone] at hpage
  cases hpage

end Cdesktop.PageInjection
