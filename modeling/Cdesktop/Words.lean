import Mathlib.Data.List.Infix

/-! Words of which no two share a letter of a text, and their replacement in the text. -/

namespace Words
set_option autoImplicit true

/-- One word is a part of the other one, or its end is the beginning of the other one. -/
def Clash (u v : List κ) : Prop :=
  u ≠ v ∧ u <:+: v ∨ ∃ k < u.length, 0 < k ∧ u.drop k ≠ v ∧ u.drop k <+: v

instance [DecidableEq κ] (u v : List κ) : Decidable (Clash u v) :=
  inferInstanceAs (Decidable (_ ∨ ∃ k < u.length, _))

/-- No word clashes with another one or with itself. -/
def Solid (words : List (List κ)) : Prop := ∀ u ∈ words, ∀ v ∈ words, ¬ Clash u v

instance [DecidableEq κ] (words : List (List κ)) : Decidable (Solid words) :=
  inferInstanceAs (Decidable (∀ u ∈ words, ∀ v ∈ words, ¬ Clash u v))

/-- Puts the placeholder for every match of the pattern, from the left and one after the other. The
pattern is not empty. -/
def replace [DecidableEq κ] (key : α → κ) (pattern : List κ) (placeholder : List α) : List α → List α
  | [] => []
  | a :: rest =>
    if pattern <+: (a :: rest).map key then
      placeholder ++ replace key pattern placeholder (rest.drop (pattern.length - 1))
    else a :: replace key pattern placeholder rest
termination_by text => text.length
decreasing_by
  · rw [List.length_drop, List.length_cons]
    omega
  · exact Nat.lt_succ_self _

def Apart (u v : List κ) : Prop := ¬ Clash u v ∧ ¬ Clash v u

instance [DecidableEq κ] (u v : List κ) : Decidable (Apart u v) :=
  inferInstanceAs (Decidable (_ ∧ _))

/-- In the text, one word is a part of the other one, or its end is the beginning of the other one. -/
def ClashIn (text u v : List κ) : Prop :=
  u ≠ v ∧ u <:+: v ∧ v <:+: text ∨
    ∃ k < u.length, 0 < k ∧ u.drop k ≠ v ∧ u.drop k <+: v ∧ u.take k ++ v <:+: text

instance [DecidableEq κ] (text u v : List κ) : Decidable (ClashIn text u v) :=
  inferInstanceAs (Decidable (_ ∨ ∃ k < u.length, _))

def ApartIn (text u v : List κ) : Prop := ¬ ClashIn text u v ∧ ¬ ClashIn text v u

instance [DecidableEq κ] (text u v : List κ) : Decidable (ApartIn text u v) :=
  inferInstanceAs (Decidable (_ ∧ _))

theorem Apart.symm (h : Apart u v) : Apart v u := And.symm h

theorem ApartIn.symm (h : ApartIn text u v) : ApartIn text v u := And.symm h

theorem Solid.apart (h : Solid words) (hu : u ∈ words) (hv : v ∈ words) : Apart u v :=
  ⟨h u hu v hv, h v hv u hu⟩

theorem ClashIn.clash (h : ClashIn text u v) : Clash u v := by
  obtain ⟨hne, hpart, -⟩ | ⟨k, hk, hpos, hne, hpart, -⟩ := h
  · exact .inl ⟨hne, hpart⟩
  · exact .inr ⟨k, hk, hpos, hne, hpart⟩

theorem Apart.within {u v : List κ} (h : Apart u v) (text : List κ) : ApartIn text u v :=
  ⟨fun hclash => h.1 hclash.clash, fun hclash => h.2 hclash.clash⟩

theorem ApartIn.eq (hapart : ApartIn text u v) (hi : i < u.length) (h : v <+: u.drop i ++ later)
    (htext : u ++ later <:+: text) : i = 0 ∧ u = v := by
  obtain ⟨huv, hvu⟩ := hapart
  have hpart (hinside : v <:+: u) : u = v := by
    by_contra hne
    exact hvu (.inl ⟨Ne.symm hne, hinside, (List.prefix_append u later).isInfix.trans htext⟩)
  cases List.prefix_or_prefix_of_prefix h (List.prefix_append _ _) with
  | inl hv =>
    have heq := hpart (hv.isInfix.trans (List.drop_suffix i u).isInfix)
    have hlength := hv.length_le
    rw [List.length_drop, heq] at hlength
    rw [heq] at hi
    exact ⟨by omega, heq⟩
  | inr hu =>
    have hover := (List.prefix_append_right_inj (u.take i)).mpr h
    rw [← List.append_assoc, List.take_append_drop] at hover
    have hinside := hover.isInfix.trans htext
    by_cases hzero : i = 0
    · rw [hzero, List.drop_zero] at hu
      rw [hzero, List.take_zero, List.nil_append] at hinside
      by_contra hne
      exact huv (.inl ⟨fun heq => hne ⟨hzero, heq⟩, hu.isInfix, hinside⟩)
    · by_cases hne : u.drop i = v
      · have heq := hpart (hne ▸ (List.drop_suffix i u).isInfix)
        have hlength := congrArg List.length (hne.trans heq.symm)
        rw [List.length_drop] at hlength
        omega
      · exact absurd (.inr ⟨i, hi, Nat.pos_of_ne_zero hzero, hne, hu, hinside⟩) huv

theorem ApartIn.isPrefix (hapart : ApartIn text u v) (hbefore : before ≠ []) (hv : v <+: after)
    (h : u <+: before ++ after) (htext : before ++ after <:+: text) : u <+: before := by
  by_contra hover
  have hlong : before.length < u.length := by
    by_contra hshort
    exact hover (List.prefix_of_prefix_length_le h (List.prefix_append _ _)
      (Nat.le_of_not_lt hshort))
  obtain ⟨later, hlater⟩ := h
  have hdrop := congrArg (List.drop before.length) hlater
  rw [List.drop_append_of_le_length (Nat.le_of_lt hlong), List.drop_left] at hdrop
  rw [← hdrop] at hv
  exact hbefore (List.eq_nil_of_length_eq_zero (hapart.eq hlong hv (hlater ▸ htext)).1)

/-- The place of a word is before or behind that of the other one. -/
theorem Apart.beside {u v before later : List κ} (hapart : Apart u v) (hne : u ≠ v)
    (h : v <+: (before ++ (u ++ later)).drop i) :
    i + v.length ≤ before.length ∨ before.length + u.length ≤ i := by
  by_contra hover
  rw [List.drop_append] at h
  by_cases hi : i ≤ before.length
  · obtain ⟨rest, hrest⟩ := h
    have hdrop := congrArg (List.drop (before.length - i)) hrest
    rw [List.drop_append_of_le_length (by omega), Nat.sub_eq_zero_of_le hi, List.drop_zero,
      ← List.length_drop, List.drop_left] at hdrop
    have hu : u <+: v.drop (before.drop i).length ++ rest := hdrop ▸ List.prefix_append _ _
    rw [List.length_drop] at hu
    exact hne ((hapart.symm.within _).eq (by omega) hu (List.infix_refl _)).2.symm
  · rw [List.drop_eq_nil_of_le (by omega), List.nil_append,
      List.drop_append_of_le_length (by omega)] at h
    exact hne ((hapart.within _).eq (by omega) h (List.infix_refl _)).2

theorem Apart.isInfix_append {u v later : List κ} (hapart : Apart u v) (hne : u ≠ v)
    (before : List κ) (h : v <:+: before ++ (u ++ later)) : v <:+: before ∨ v <:+: later := by
  obtain ⟨front, back, h⟩ := h
  have hv : v <+: (before ++ (u ++ later)).drop front.length := by
    rw [← h, List.append_assoc, List.drop_left]
    exact List.prefix_append _ _
  cases hapart.beside hne hv with
  | inl hle =>
    have hfront : front ++ v <+: before := List.prefix_of_prefix_length_le ⟨back, h⟩
      (List.prefix_append _ _) (by rwa [List.length_append])
    exact .inl ((List.suffix_append _ _).isInfix.trans hfront.isInfix)
  | inr hle =>
    rw [List.drop_append, List.drop_append, List.drop_eq_nil_of_le (by omega),
      List.drop_eq_nil_of_le (by omega)] at hv
    exact .inr (hv.isInfix.trans (List.drop_suffix _ _).isInfix)

theorem not_prefix_drop {key : α → κ} {word text : List α} (huv : ApartIn whole u v) (hne : u ≠ v)
    (hword : word.map key = u) (hwhole : (word ++ text).map key <:+: whole) :
    ∀ i < word.length, ¬ v <+: (word.drop i ++ text).map key := by
  intro i hi h
  rw [List.map_append, hword] at hwhole
  rw [List.map_append, List.map_drop, hword] at h
  rw [← List.length_map key, hword] at hi
  exact hne (huv.eq hi h hwhole).2

section Replace

variable [DecidableEq κ] {key : α → κ} {pattern : List κ} {placeholder word rest text : List α}

theorem replace_match (hpattern : pattern ≠ []) (hword : word.map key = pattern) (rest : List α) :
    replace key pattern placeholder (word ++ rest) =
      placeholder ++ replace key pattern placeholder rest := by
  cases word with
  | nil => exact absurd hword.symm hpattern
  | cons a word =>
    have hinit : pattern <+: (a :: (word ++ rest)).map key := by
      rw [← hword, ← List.cons_append, List.map_append]
      exact List.prefix_append _ _
    rw [List.cons_append, replace, if_pos hinit, ← hword, List.map_cons, List.length_cons,
      List.length_map, Nat.add_sub_cancel, List.drop_left]

theorem replace_skip {a : α} (h : ¬ pattern <+: (a :: rest).map key) :
    replace key pattern placeholder (a :: rest) = a :: replace key pattern placeholder rest := by
  rw [replace, if_neg h]

theorem replace_pass (h : ∀ i < word.length, ¬ pattern <+: (word.drop i ++ rest).map key) :
    replace key pattern placeholder (word ++ rest) =
      word ++ replace key pattern placeholder rest := by
  induction word with
  | nil => rfl
  | cons a word ih =>
    have hskip : ¬ pattern <+: (a :: (word ++ rest)).map key := h 0 (Nat.zero_lt_succ _)
    have hword : ∀ i < word.length, ¬ pattern <+: (word.drop i ++ rest).map key :=
      fun i hi => h (i + 1) (Nat.succ_lt_succ hi)
    rw [List.cons_append, replace_skip hskip, ih hword, List.cons_append]

theorem replace_eq_self (h : ¬ pattern <:+: text.map key) :
    replace key pattern placeholder text = text := by
  have hnone : ∀ i < text.length, ¬ pattern <+: (text.drop i ++ []).map key := by
    intro i _ hinit
    rw [List.append_nil, List.map_drop] at hinit
    exact h (hinit.isInfix.trans (List.drop_suffix _ _).isInfix)
  have hpass : replace key pattern placeholder (text ++ []) =
      text ++ replace key pattern placeholder [] := replace_pass hnone
  rwa [List.append_nil, replace, List.append_nil] at hpass

theorem match_or_skip (pattern : List κ) (key : α → κ) (text : List α) :
    (∃ word rest, text = word ++ rest ∧ word.map key = pattern) ∨ ¬ pattern <+: text.map key := by
  by_cases h : pattern <+: text.map key
  · left
    obtain ⟨later, hlater⟩ := h
    obtain ⟨word, rest, htext, hword, -⟩ := List.append_eq_map_iff.mp hlater
    exact ⟨word, rest, htext, hword⟩
  · exact .inr h

theorem mem_replace {a : α} (h : a ∈ replace key pattern placeholder text) :
    a ∈ placeholder ∨ a ∈ text := by
  induction text using replace.induct key pattern with
  | case1 =>
    rw [replace] at h
    exact absurd h List.not_mem_nil
  | case2 b rest hmatch ih =>
    rw [replace, if_pos hmatch] at h
    cases List.mem_append.mp h with
    | inl h => exact .inl h
    | inr h => exact (ih h).imp_right fun h => List.mem_cons_of_mem _ (List.mem_of_mem_drop h)
  | case3 b rest hskip ih =>
    rw [replace_skip hskip] at h
    cases h with
    | head => exact .inr List.mem_cons_self
    | tail _ h => exact (ih h).imp_right (List.mem_cons_of_mem _)

theorem replace_cases (hpattern : pattern ≠ []) (key : α → κ) (placeholder text : List α) :
    ¬ pattern <:+: text.map key ∧ replace key pattern placeholder text = text ∨
    ∃ before word after, text = before ++ (word ++ after) ∧ word.map key = pattern ∧
      replace key pattern placeholder text =
        before ++ (placeholder ++ replace key pattern placeholder after) := by
  induction text with
  | nil =>
    rw [replace, List.map_nil, List.infix_nil]
    exact .inl ⟨hpattern, rfl⟩
  | cons a rest ih =>
    obtain ⟨word, after, htext, hword⟩ | hskip := match_or_skip pattern key (a :: rest)
    · right
      rw [htext, replace_match hpattern hword]
      exact ⟨[], word, after, rfl, hword, rfl⟩
    · rw [replace_skip hskip]
      obtain ⟨hnone, hself⟩ | ⟨before, word, after, htext, hword, hreplace⟩ := ih
      · left
        rw [List.map_cons, List.infix_cons_iff]
        exact ⟨fun h => h.elim hskip hnone, congrArg (a :: ·) hself⟩
      · right
        rw [hreplace, htext]
        exact ⟨a :: before, word, after, rfl, hword, rfl⟩

theorem map_replace (key : α → κ) (pattern : List κ) (placeholder text : List α) :
    (replace key pattern placeholder text).map key =
      replace id pattern (placeholder.map key) (text.map key) := by
  induction text using replace.induct key pattern with
  | case1 =>
    rw [replace, List.map_nil, replace]
  | case2 a rest hmatch ih =>
    have hmatch' : pattern <+: (key a :: rest.map key).map id := by
      rw [List.map_id]
      exact hmatch
    rw [replace, if_pos hmatch, List.map_append, ih, List.map_drop, List.map_cons, replace,
      if_pos hmatch']
  | case3 a rest hskip ih =>
    have hskip' : ¬ pattern <+: (key a :: rest.map key).map id := by
      rw [List.map_id]
      exact hskip
    rw [replace_skip hskip, List.map_cons, ih, List.map_cons, replace_skip hskip']

theorem replace_append_match (hpattern : pattern ≠ []) (hself : ApartIn whole pattern pattern)
    (hword : word.map key = pattern) (before : List α)
    (hwhole : (before ++ (word ++ rest)).map key <:+: whole) :
    replace key pattern placeholder (before ++ (word ++ rest)) =
      replace key pattern placeholder before ++
        (placeholder ++ replace key pattern placeholder rest) := by
  have hmatch : pattern <+: (word ++ rest).map key := by
    rw [List.map_append, hword]
    exact List.prefix_append _ _
  induction hn : before.length using Nat.strong_induction_on generalizing before with
  | _ n ih =>
    subst hn
    cases before with
    | nil => rw [replace, List.nil_append, List.nil_append, replace_match hpattern hword]
    | cons a before =>
      by_cases hhead : pattern <+: (a :: before).map key
      · obtain ⟨later, hlater⟩ := hhead
        obtain ⟨word', before', hbefore, hword', -⟩ := List.append_eq_map_iff.mp hlater
        have hlength : before'.length < (a :: before).length := by
          have hpos := List.length_pos_of_ne_nil hpattern
          rw [← hword', List.length_map] at hpos
          rw [hbefore, List.length_append]
          omega
        have hrest : (before' ++ (word ++ rest)).map key <:+: whole := by
          rw [hbefore, List.append_assoc, List.map_append] at hwhole
          exact (List.suffix_append _ _).isInfix.trans hwhole
        rw [hbefore, List.append_assoc, replace_match hpattern hword',
          replace_match hpattern hword', ih _ hlength before' hrest rfl, List.append_assoc]
      · have hskip : ¬ pattern <+: (a :: (before ++ (word ++ rest))).map key := by
          intro hinit
          rw [← List.cons_append, List.map_append] at hinit
          rw [List.map_append] at hwhole
          exact hhead (hself.isPrefix (List.cons_ne_nil _ _) hmatch hinit hwhole)
        have hlength : before.length < (a :: before).length := Nat.lt_succ_self _
        have hrest : (before ++ (word ++ rest)).map key <:+: whole :=
          (List.suffix_cons _ _).isInfix.trans hwhole
        rw [List.cons_append, replace_skip hskip, ih _ hlength before hrest rfl,
          replace_skip hhead, List.cons_append]

theorem replace_eq_nil (hplaceholder : placeholder ≠ [])
    (h : replace key pattern placeholder text = []) : text = [] := by
  cases text with
  | nil => rfl
  | cons a rest =>
    rw [replace] at h
    split at h
    · exact absurd (List.append_eq_nil_iff.mp h).1 hplaceholder
    · exact nomatch h

theorem length_replace (hpattern : pattern ≠ []) (key : α → κ) (placeholder text : List α) :
    ∃ n, (replace key pattern placeholder text).length + n * pattern.length =
      text.length + n * placeholder.length := by
  induction text using replace.induct key pattern with
  | case1 =>
    rw [replace]
    exact ⟨0, by omega⟩
  | case2 a rest hmatch ih =>
    obtain ⟨n, hn⟩ := ih
    have hlength := hmatch.length_le
    have hpos := List.length_pos_of_ne_nil hpattern
    rw [List.length_map, List.length_cons] at hlength
    rw [List.length_drop] at hn
    refine ⟨n + 1, ?_⟩
    rw [replace, if_pos hmatch, List.length_append, List.length_cons, Nat.succ_mul, Nat.succ_mul]
    omega
  | case3 a rest hskip ih =>
    obtain ⟨n, hn⟩ := ih
    refine ⟨n, ?_⟩
    rw [replace_skip hskip, List.length_cons, List.length_cons]
    omega

theorem replace_ne_self (hpattern : pattern ≠ []) (hne : pattern ≠ placeholder.map key)
    (h : pattern <:+: text.map key) : replace key pattern placeholder text ≠ text := by
  obtain ⟨hnone, -⟩ | ⟨before, word, after, htext, hword, hreplace⟩ :=
    replace_cases hpattern key placeholder text
  · exact absurd h hnone
  · rw [hreplace, htext]
    intro heq
    have hrest := List.append_cancel_left heq
    have hlength := congrArg List.length hrest
    rw [List.length_append, List.length_append] at hlength
    have hpattern' : word.length = pattern.length := by rw [← hword, List.length_map]
    have hsame : placeholder.length = word.length := by
      obtain ⟨n, hn⟩ := length_replace hpattern key placeholder after
      apply Nat.eq_of_mul_eq_mul_left n.succ_pos
      rw [hpattern', Nat.succ_mul, Nat.succ_mul]
      omega
    rw [← hword, (List.append_inj hrest hsame).1] at hne
    exact hne rfl

end Replace

section Apart

variable [DecidableEq κ] {key : α → κ} {placeholder word text : List α} {u v p : List κ}

section
variable (hp : placeholder.map key = p)
include hp

theorem prefix_of_prefix_replace (hu : u ≠ []) (hvp : Apart v p) (hbefore : before ≠ [])
    (h : v <+: (before ++ replace key u placeholder text).map key) :
    v <+: (before ++ text).map key := by
  obtain ⟨-, hself⟩ | ⟨front, word, after, htext, -, hreplace⟩ :=
    replace_cases hu key placeholder text
  · rwa [hself] at h
  · rw [hreplace, ← List.append_assoc, List.map_append] at h
    have hne : (before ++ front).map key ≠ [] :=
      fun hnil => hbefore (List.append_eq_nil_iff.mp (List.map_eq_nil_iff.mp hnil)).1
    have hplaceholder : p <+: (placeholder ++ replace key u placeholder after).map key := by
      rw [List.map_append, hp]
      exact List.prefix_append _ _
    have hfront := (hvp.within _).isPrefix hne hplaceholder h (List.infix_refl _)
    rw [htext, ← List.append_assoc, List.map_append]
    exact List.prefix_append_of_prefix hfront

theorem replace_placeholder (hu : u ≠ []) (hup : Apart u p) (text : List α) :
    replace key u placeholder (placeholder ++ text) =
      placeholder ++ replace key u placeholder text := by
  by_cases hne : p = u
  · exact replace_match hu (hp.trans hne) text
  · exact replace_pass (not_prefix_drop (hup.symm.within _) hne hp (List.infix_refl _))

theorem replace_idem (hu : u ≠ []) (hup : Apart u p) (text : List α) :
    replace key u placeholder (replace key u placeholder text) =
      replace key u placeholder text := by
  induction text using replace.induct key u with
  | case1 => rw [replace, replace]
  | case2 a rest hmatch ih =>
    rw [replace, if_pos hmatch, replace_placeholder hp hu hup, ih]
  | case3 a rest hskip ih =>
    have hskip' : ¬ u <+: (a :: replace key u placeholder rest).map key := fun h =>
      hskip (prefix_of_prefix_replace hp hu hup (List.cons_ne_nil a []) h)
    rw [replace_skip hskip, replace_skip hskip', ih]

theorem replace_comm (hu : u ≠ []) (hv : v ≠ [])
    (hup : Apart u p) (hvp : Apart v p) (huv : ApartIn whole u v) (text : List α)
    (hwhole : text.map key <:+: whole) :
    replace key v placeholder (replace key u placeholder text) =
      replace key u placeholder (replace key v placeholder text) := by
  by_cases hne : u = v
  · rw [hne]
  have hrest {word rest : List α} (hwhole : (word ++ rest).map key <:+: whole) :
      rest.map key <:+: whole := by
    rw [List.map_append] at hwhole
    exact (List.suffix_append _ _).isInfix.trans hwhole
  induction hn : text.length using Nat.strong_induction_on generalizing text with
  | _ n ih =>
    subst hn
    obtain ⟨word, rest, rfl, hword⟩ | hskip := match_or_skip u key text
    · have hlength : rest.length < (word ++ rest).length := by
        have hpos := List.length_pos_of_ne_nil hu
        rw [← hword, List.length_map] at hpos
        rw [List.length_append]
        omega
      rw [replace_match hu hword, replace_placeholder hp hv hvp,
        replace_pass (not_prefix_drop huv hne hword hwhole), replace_match hu hword,
        ih _ hlength rest (hrest hwhole) rfl]
    obtain ⟨word, rest, rfl, hword⟩ | hskip' := match_or_skip v key text
    · have hlength : rest.length < (word ++ rest).length := by
        have hpos := List.length_pos_of_ne_nil hv
        rw [← hword, List.length_map] at hpos
        rw [List.length_append]
        omega
      rw [replace_match hv hword, replace_placeholder hp hu hup,
        replace_pass (not_prefix_drop huv.symm (Ne.symm hne) hword hwhole),
        replace_match hv hword, ih _ hlength rest (hrest hwhole) rfl]
    cases text with
    | nil => rw [replace, replace, replace]
    | cons a rest =>
      have hkeep : ¬ v <+: (a :: replace key u placeholder rest).map key := fun h =>
        hskip' (prefix_of_prefix_replace hp hu hvp (List.cons_ne_nil a []) h)
      have hkeep' : ¬ u <+: (a :: replace key v placeholder rest).map key := fun h =>
        hskip (prefix_of_prefix_replace hp hv hup (List.cons_ne_nil a []) h)
      rw [replace_skip hskip, replace_skip hskip', replace_skip hkeep, replace_skip hkeep',
        ih _ (Nat.lt_succ_self _) rest ((List.suffix_cons _ _).isInfix.trans hwhole) rfl]

theorem infix_of_infix_replace (hu : u ≠ []) (hvp : Apart v p)
    (hne : v ≠ p) (h : v <:+: (replace key u placeholder text).map key) :
    v <:+: text.map key := by
  induction text using replace.induct key u with
  | case1 =>
    rw [replace] at h
    exact h
  | case2 a rest hmatch ih =>
    rw [replace, if_pos hmatch, List.map_append, hp] at h
    obtain hnil | hinside := hvp.symm.isInfix_append (Ne.symm hne) [] h
    · rw [List.infix_nil.mp hnil]
      exact List.nil_infix
    · have hrest := ih hinside
      rw [List.map_drop] at hrest
      exact hrest.trans ((List.drop_suffix _ _).isInfix.trans (List.suffix_cons _ _).isInfix)
  | case3 a rest hskip ih =>
    rw [replace_skip hskip] at h
    cases List.infix_cons_iff.mp h with
    | inl hinit =>
      exact (prefix_of_prefix_replace hp hu hvp (List.cons_ne_nil a []) hinit).isInfix
    | inr hinside => exact (ih hinside).trans (List.suffix_cons _ _).isInfix

end

end Apart

section Clashes

variable {u v p : List κ}

theorem append_overlap (h : u.drop k ++ after = v) : u ++ after = u.take k ++ v :=
  calc
    u ++ after = u.take k ++ u.drop k ++ after := by rw [List.take_append_drop]
    _ = u.take k ++ (u.drop k ++ after) := List.append_assoc ..
    _ = u.take k ++ v := by rw [h]

theorem exists_of_clash_self (h : Clash u u) : ∃ before after, after ≠ [] ∧
    after.length < u.length ∧ before.length < u.length ∧ u ++ after = before ++ u := by
  cases h with
  | inl h => exact absurd rfl h.1
  | inr h =>
    obtain ⟨k, hk, hpos, -, after, hafter⟩ := h
    have hlength := congrArg List.length hafter
    rw [List.length_append, List.length_drop] at hlength
    have htake : (u.take k).length = k := List.length_take_of_le (Nat.le_of_lt hk)
    exact ⟨u.take k, after, List.ne_nil_of_length_pos (by omega), by omega, by omega,
      append_overlap hafter⟩

/-- A word that clashes with the placeholder stands in a text that holds the placeholder, with no
room for itself beside it. -/
theorem exists_of_clash (hu : u ≠ []) (hp : p ≠ []) (h : ¬ Apart u p) :
    ∃ before after, before.length < u.length ∧ after.length < u.length ∧
      u <:+: before ++ (p ++ after) := by
  have hupos := List.length_pos_of_ne_nil hu
  have hppos := List.length_pos_of_ne_nil hp
  obtain ((⟨-, hpart⟩ | ⟨k, hk, -, -, after, hafter⟩) |
      (⟨-, before, after, hpart⟩ | ⟨k, hk, hpos, -, after, hafter⟩)) :
      Clash u p ∨ Clash p u := by
    by_contra hnone
    exact h ⟨fun h => hnone (.inl h), fun h => hnone (.inr h)⟩
  · rw [← List.append_nil p] at hpart
    exact ⟨[], [], hupos, hupos, hpart⟩
  · have htake : (u.take k).length = k := List.length_take_of_le (Nat.le_of_lt hk)
    have hinside : u <:+: u.take k ++ (p ++ []) := by
      rw [List.append_nil, ← append_overlap hafter]
      exact (List.prefix_append _ _).isInfix
    exact ⟨u.take k, [], by omega, hupos, hinside⟩
  · have hlength := congrArg List.length hpart
    rw [List.length_append, List.length_append] at hlength
    have hinside : u <:+: before ++ (p ++ after) := by
      rw [← List.append_assoc, hpart]
    exact ⟨before, after, by omega, by omega, hinside⟩
  · have hlength := congrArg List.length hafter
    rw [List.length_append, List.length_drop] at hlength
    have hinside : u <:+: [] ++ (p ++ after) := by
      rw [List.nil_append, append_overlap hafter]
      exact (List.suffix_append _ _).isInfix
    exact ⟨[], after, hupos, by omega, hinside⟩

/-- What two words that are apart from the placeholder make where they overlap is apart from it. -/
theorem Apart.merge (hp : p ≠ []) (hup : Apart p u) (hvp : Apart p v) (hu : p ≠ u) (hv : p ≠ v)
    (hk : k < u.length) (hpart : u.drop k <+: v) :
    Apart (u.take k ++ v) p ∧ u.take k ++ v ≠ p := by
  have hbegins := (List.prefix_append_right_inj (u.take k)).mpr hpart
  rw [List.take_append_drop] at hbegins
  have hpos := Nat.lt_of_lt_of_le (Nat.zero_lt_of_lt hk) hbegins.length_le
  have hnone : ∀ before after, before.length < (u.take k ++ v).length →
      after.length < (u.take k ++ v).length → ¬ u.take k ++ v <:+: before ++ (p ++ after) := by
    rintro before after hbefore hafter ⟨front, back, h⟩
    rw [List.append_assoc, List.append_assoc] at h
    have hfirst : u <+: (before ++ (p ++ after)).drop front.length := by
      rw [← h, List.drop_left, ← List.append_assoc]
      exact hbegins.trans (List.prefix_append _ _)
    have hlast : v <+: (before ++ (p ++ after)).drop (front ++ u.take k).length := by
      rw [← h, ← List.append_assoc, List.drop_left]
      exact List.prefix_append _ _
    have hlength := congrArg List.length h
    have hplace := hup.beside hu hfirst
    have hplace' := hvp.beside hv hlast
    simp only [List.length_append, List.length_take] at hlength hbefore hafter hplace'
    omega
  constructor
  · by_contra hclash
    obtain ⟨before, after, hbefore, hafter, hinside⟩ :=
      exists_of_clash (List.ne_nil_of_length_pos hpos) hp hclash
    exact hnone before after hbefore hafter hinside
  · intro heq
    apply hnone [] [] hpos hpos
    rw [List.nil_append, List.append_nil, heq]

end Clashes

section Steps

/-- Steps that can be taken in any order, and need not be taken twice, on what `good` says of. -/
structure Steps (step : β → ι → β) (good : β → Prop) (items : List ι) : Prop where
  keeps : ∀ i ∈ items, ∀ b, good b → good (step b i)
  comm : ∀ i ∈ items, ∀ j ∈ items, ∀ b, good b → step (step b i) j = step (step b j) i
  idem : ∀ i ∈ items, ∀ b, good b → step (step b i) i = step b i

variable {step : β → ι → β} {good : β → Prop} {items items' : List ι} {b : β}

theorem Steps.of_subset (h : Steps step good items) (hsubset : items' ⊆ items) :
    Steps step good items' := by
  constructor
  · exact fun i hi => h.keeps i (hsubset hi)
  · exact fun i hi j hj => h.comm i (hsubset hi) j (hsubset hj)
  · exact fun i hi => h.idem i (hsubset hi)

theorem Steps.foldl_step (h : Steps step good (i :: items)) (hb : good b) :
    items.foldl step (step b i) = step (items.foldl step b) i := by
  induction items generalizing b with
  | nil => rfl
  | cons j items ih =>
    have hj : j ∈ i :: j :: items := List.mem_cons_of_mem _ List.mem_cons_self
    have hrest : Steps step good (i :: items) :=
      h.of_subset (List.cons_subset_cons _ (List.subset_cons_self _ _))
    rw [List.foldl_cons, List.foldl_cons, h.comm i List.mem_cons_self j hj b hb]
    exact ih hrest (h.keeps j hj b hb)

theorem Steps.foldl_absorb (h : Steps step good items) (hi : i ∈ items) (hb : good b) :
    items.foldl step (step b i) = items.foldl step b := by
  induction items generalizing b with
  | nil => exact absurd hi List.not_mem_nil
  | cons j items ih =>
    have hj : j ∈ j :: items := List.mem_cons_self
    rw [List.foldl_cons, List.foldl_cons]
    cases hi with
    | head => rw [h.idem i hj b hb]
    | tail _ hi =>
      rw [h.comm i (List.mem_cons_of_mem _ hi) j hj b hb]
      exact ih (h.of_subset (List.subset_cons_self _ _)) hi (h.keeps j hj b hb)

theorem Steps.foldl_append (h : Steps step good items) (hsubset : items' ⊆ items) (hb : good b) :
    items.foldl step (items'.foldl step b) = items.foldl step b := by
  induction items' generalizing b with
  | nil => rfl
  | cons i items' ih =>
    have hi := hsubset List.mem_cons_self
    have hrest : items' ⊆ items := fun j hj => hsubset (List.mem_cons_of_mem _ hj)
    rw [List.foldl_cons, ih hrest (h.keeps i hi b hb), h.foldl_absorb hi hb]

theorem Steps.foldl_fixed (h : Steps step good items) (hsubset : items' ⊆ items) (hb : good b) :
    items'.foldl step (items.foldl step b) = items.foldl step b := by
  induction items' with
  | nil => rfl
  | cons i items' ih =>
    have hi := hsubset List.mem_cons_self
    have hrest : items' ⊆ items := fun j hj => hsubset (List.mem_cons_of_mem _ hj)
    have hall : Steps step good (i :: items) :=
      h.of_subset (List.cons_subset.mpr ⟨hi, fun _ h => h⟩)
    rw [List.foldl_cons, ← hall.foldl_step hb, h.foldl_absorb hi hb, ih hrest]

theorem Steps.foldl_eq (h : Steps step good items) (hmem : ∀ i, i ∈ items' ↔ i ∈ items)
    (hb : good b) : items'.foldl step b = items.foldl step b := by
  have hsubset : items' ⊆ items := fun i hi => (hmem i).mp hi
  have hsubset' : items ⊆ items' := fun i hi => (hmem i).mpr hi
  have hright := (h.of_subset hsubset).foldl_append hsubset' hb
  rw [← hright, h.foldl_fixed hsubset hb]

end Steps

end Words
