import Cdesktop.Redact

/-! When the order of the secrets makes no difference, and nothing of them is left. -/

namespace Cdesktop.Redact
open TrustedKeys (isBlank)
open Words (Apart ApartIn Clash ClashIn Solid Steps)
set_option autoImplicit true

/-- No secret overlaps with the placeholder, and in the text none with another one or with itself. -/
def Separate (text : String) (secrets : List String) : Prop :=
  (∀ secret ∈ secrets, Apart secret.toList redactedPlaceholder.toList) ∧
  ∀ u ∈ secrets, ∀ v ∈ secrets, ApartIn text.toList u.toList v.toList

instance (text : String) (secrets : List String) : Decidable (Separate text secrets) :=
  inferInstanceAs (Decidable (_ ∧ _))

/-- What could be a secret is in the letters only where it is in the text. -/
def Holds (text : String) (letters : List Letter) : Prop :=
  ∀ word, Apart word redactedPlaceholder.toList → word ≠ redactedPlaceholder.toList →
    word <:+: letters.map Prod.fst → word <:+: text.toList

theorem Holds.step (h : Holds text letters) (hblank : isBlank secret = false) :
    Holds text (redactStep letters secret) := by
  intro word hword hne hinside
  rw [redactStep_eq hblank] at hinside
  exact h word hword hne (Words.infix_of_infix_replace map_placeholderLetters
    (toList_ne_nil hblank) hword hne hinside)

theorem placeholder_apart : Apart redactedPlaceholder.toList redactedPlaceholder.toList := by
  decide

theorem Holds.clashIn (h : Holds text letters) (hup : Apart u redactedPlaceholder.toList)
    (hvp : Apart v redactedPlaceholder.toList) (hclash : ClashIn (letters.map Prod.fst) u v) :
    ClashIn text.toList u v := by
  obtain ⟨hne, hpart, hinside⟩ | ⟨k, hk, hpos, hne, hpart, hinside⟩ := hclash
  · refine .inl ⟨hne, hpart, h v hvp ?_ hinside⟩
    rintro rfl
    exact hup.1 (.inl ⟨hne, hpart⟩)
  · have hu : redactedPlaceholder.toList ≠ u := by
      rintro rfl
      exact hvp.2 (.inr ⟨k, hk, hpos, hne, hpart⟩)
    have hv : redactedPlaceholder.toList ≠ v := by
      rintro rfl
      exact hup.1 (.inr ⟨k, hk, hpos, hne, hpart⟩)
    obtain ⟨hapart, hne'⟩ :=
      Apart.merge (List.cons_ne_nil _ _) hup.symm hvp.symm hu hv hk hpart
    exact .inr ⟨k, hk, hpos, hne, hpart, h _ hapart hne' hinside⟩

theorem Separate.steps (h : Separate text secrets)
    (hsecrets : ∀ secret ∈ secrets, isBlank secret = false) :
    Steps redactStep (Holds text) secrets := by
  constructor
  · exact fun u hu letters hletters => hletters.step (hsecrets u hu)
  · intro u hu v hv letters hletters
    have hapart : ApartIn (letters.map Prod.fst) u.toList v.toList :=
      (h.2 u hu v hv).imp (mt (hletters.clashIn (h.1 u hu) (h.1 v hv)))
        (mt (hletters.clashIn (h.1 v hv) (h.1 u hu)))
    rw [redactStep_eq (hsecrets u hu), redactStep_eq (hsecrets v hv),
      redactStep_eq (hsecrets v hv), redactStep_eq (hsecrets u hu)]
    exact Words.replace_comm map_placeholderLetters (toList_ne_nil (hsecrets u hu))
      (toList_ne_nil (hsecrets v hv)) (h.1 u hu) (h.1 v hv) hapart letters (List.infix_refl _)
  · intro u hu letters hletters
    rw [redactStep_eq (hsecrets u hu), redactStep_eq (hsecrets u hu)]
    exact Words.replace_idem map_placeholderLetters (toList_ne_nil (hsecrets u hu)) (h.1 u hu)
      letters

theorem holds_text (text : String) : Holds text (lettersFrom 0 text.toList) := by
  intro word _ _ hinside
  rwa [map_lettersFrom] at hinside

theorem mem_redactLetters {secrets : List String} {letters : List Letter} {c : Char} {i : Nat}
    (h : (c, some i) ∈ secrets.foldl redactStep letters) :
    (c, some i) ∈ letters := by
  induction secrets generalizing letters with
  | nil => exact h
  | cons secret secrets ih =>
    have hstep := ih h
    unfold redactStep at hstep
    split at hstep
    · exact hstep
    · exact (Words.mem_replace hstep).resolve_left (not_mem_placeholderLetters c i)

theorem Separate.removed (h : Separate text secrets)
    (hsecrets : ∀ secret ∈ secrets, isBlank secret = false) (hi : Covered text secrets i) :
    ¬ Survives text secrets i := by
  obtain ⟨secret, hsecret, before, after, htext, hlo, hhi⟩ := hi
  intro ⟨c, hc⟩
  rw [redactLetters, ← (h.steps hsecrets).foldl_absorb hsecret (holds_text text)] at hc
  have hstep := mem_redactLetters hc
  have hapart := h.2 secret hsecret secret hsecret
  rw [htext] at hapart
  rw [redactStep_eq (hsecrets secret hsecret), htext, lettersFrom_append, lettersFrom_append,
    Words.replace_append_match (toList_ne_nil (hsecrets secret hsecret)) hapart
      (map_lettersFrom _ _) _ (by simp only [List.map_append, map_lettersFrom, List.infix_refl])]
    at hstep
  have hmem : (c, some i) ∈ lettersFrom 0 before ∨
      (c, some i) ∈ lettersFrom (0 + before.length + secret.toList.length) after := by
    cases List.mem_append.mp hstep with
    | inl hbefore =>
      exact .inl ((Words.mem_replace hbefore).resolve_left (not_mem_placeholderLetters c i))
    | inr hrest =>
      have hafter := (List.mem_append.mp hrest).resolve_left (not_mem_placeholderLetters c i)
      exact .inr ((Words.mem_replace hafter).resolve_left (not_mem_placeholderLetters c i))
  cases hmem with
  | inl hbefore =>
    have hplace := place_of_mem_lettersFrom hbefore
    omega
  | inr hafter =>
    have hplace := place_of_mem_lettersFrom hafter
    omega

theorem Separate.redacts (h : Separate text secrets)
    (hsecrets : ∀ secret ∈ secrets, isBlank secret = false) : Redacts text secrets := by
  constructor
  · intro secrets' hmem
    have hletters := (h.steps hsecrets).foldl_eq hmem (holds_text text)
    apply String.toList_injective
    rw [← map_redactLetters, ← map_redactLetters]
    exact congrArg _ hletters
  · exact fun i hi => h.removed hsecrets hi

theorem redactLetters_singleton (hblank : isBlank secret = false)
    (htext : text.toList = secret.toList ++ after) (hafter : ¬ secret.toList <:+: after) :
    redactLetters text [secret] =
      placeholderLetters ++ lettersFrom secret.toList.length after := by
  change redactStep (lettersFrom 0 text.toList) secret = _
  rw [redactStep_eq hblank, htext, lettersFrom_append,
    Words.replace_match (toList_ne_nil hblank) (map_lettersFrom _ _), Words.replace_eq_self]
  · rw [Nat.zero_add]
  · rwa [map_lettersFrom]

theorem not_infix_of_length {u v : List Char} (h : v.length < u.length) : ¬ u <:+: v :=
  fun hinside => Nat.not_le_of_lt h hinside.length_le

theorem not_redacts_of_clash_self (hblank : isBlank secret = false)
    (h : Clash secret.toList secret.toList) : ∃ text, ¬ Redacts text [secret] := by
  obtain ⟨before, after, hne, hafter, hbefore, heq⟩ := Words.exists_of_clash_self h
  have hlength := congrArg List.length heq
  rw [List.length_append, List.length_append] at hlength
  have hpos := List.length_pos_of_ne_nil hne
  apply Exists.intro (String.ofList (secret.toList ++ after))
  intro hredacts
  apply hredacts.removed secret.toList.length
  · apply Exists.intro secret
    apply And.intro (List.mem_singleton_self _)
    apply Exists.intro before
    apply Exists.intro []
    rw [String.toList_ofList, heq, List.append_nil]
    exact ⟨rfl, by omega, by omega⟩
  · rw [Survives, redactLetters_singleton hblank String.toList_ofList (not_infix_of_length hafter)]
    cases after with
    | nil => exact absurd rfl hne
    | cons c after => exact ⟨c, List.mem_append_right _ List.mem_cons_self⟩

theorem redactText_singleton (hblank : isBlank secret = false) (text : String) :
    redactText text [secret] = replace text secret redactedPlaceholder := by
  change (if isBlank secret then text else replace text secret redactedPlaceholder) = _
  rw [if_neg (Bool.eq_false_iff.mp hblank)]

theorem redactText_pair (hv : isBlank v = false) (text u : String) :
    redactText text [u, v] = replace (redactText text [u]) v redactedPlaceholder :=
  redactText_singleton hv (redactText text [u])

theorem not_redacts_of_clash (hblank : isBlank secret = false)
    (hself : ¬ Clash secret.toList secret.toList)
    (hne : secret.toList ≠ redactedPlaceholder.toList)
    (h : ¬ Apart secret.toList redactedPlaceholder.toList) :
    ∃ text, ¬ Redacts text [secret] := by
  have hsecret := toList_ne_nil hblank
  obtain ⟨before, after, hbefore, hafter, hinside⟩ :=
    Words.exists_of_clash hsecret (List.cons_ne_nil _ _) h
  apply Exists.intro (String.ofList (before ++ (secret.toList ++ after)))
  intro hredacts
  have htwice := hredacts.order [secret, secret] (fun s => by simp)
  have honce : redactText (.ofList (before ++ (secret.toList ++ after))) [secret] =
      .ofList (before ++ (redactedPlaceholder.toList ++ after)) := by
    rw [redactText_singleton hblank, replace, String.toList_ofList,
      Words.replace_append_match hsecret (Apart.within ⟨hself, hself⟩ _) (List.map_id _) _
        (List.infix_refl _),
      Words.replace_eq_self, Words.replace_eq_self]
    · rw [List.map_id]
      exact not_infix_of_length hafter
    · rw [List.map_id]
      exact not_infix_of_length hbefore
  rw [redactText_pair hblank, honce, replace, String.toList_ofList, String.ofList_inj] at htwice
  exact Words.replace_ne_self hsecret (by rwa [List.map_id]) (by rwa [List.map_id]) htwice

theorem replace_toList (text pattern placeholder : String) :
    (replace text pattern placeholder).toList =
      Words.replace id pattern.toList placeholder.toList text.toList := String.toList_ofList

theorem not_redacts_of_infix (hu : isBlank u = false) (hv : isBlank v = false)
    (hup : Apart u.toList redactedPlaceholder.toList)
    (hvp : Apart v.toList redactedPlaceholder.toList)
    (hup' : u.toList ≠ redactedPlaceholder.toList) (hvp' : v.toList ≠ redactedPlaceholder.toList)
    (hne : u ≠ v) (h : u.toList <:+: v.toList) : ¬ Redacts v [v, u] := by
  intro hredacts
  have horder := congrArg String.toList
    (hredacts.order [u, v] (fun s => by simp only [List.mem_cons]; tauto))
  have hnone : ¬ u.toList <:+: redactedPlaceholder.toList :=
    fun hinside => hup.1 (.inl ⟨hup', hinside⟩)
  have hlast : (redactText v [v, u]).toList = redactedPlaceholder.toList := by
    have hself : Words.replace id v.toList redactedPlaceholder.toList (v.toList ++ []) =
        redactedPlaceholder.toList ++ Words.replace id v.toList redactedPlaceholder.toList [] :=
      Words.replace_match (toList_ne_nil hv) (List.map_id v.toList) []
    rw [List.append_nil, Words.replace, List.append_nil] at hself
    rw [redactText_pair hu, redactText_singleton hv, replace_toList, replace_toList, hself]
    exact Words.replace_eq_self (by rwa [List.map_id])
  rw [hlast, redactText_pair hv, redactText_singleton hu, replace_toList, replace_toList] at horder
  obtain ⟨hnone, -⟩ | ⟨before, word, after, htext, hword, hreplace⟩ :=
    Words.replace_cases (toList_ne_nil hu) id redactedPlaceholder.toList v.toList
  · rw [List.map_id] at hnone
    exact hnone h
  · rw [List.map_id] at hword
    have hlength := congrArg List.length htext
    rw [List.length_append, List.length_append] at hlength
    have hpos := List.length_pos_of_ne_nil (toList_ne_nil hu)
    rw [← hword] at hpos
    -- The longer secret is not there any more.
    have hgone : ¬ v.toList <:+: (before ++ (redactedPlaceholder.toList ++
        Words.replace id u.toList redactedPlaceholder.toList after)).map id := by
      rw [List.map_id]
      intro hinside
      cases hvp.symm.isInfix_append (Ne.symm hvp') before hinside with
      | inl hinside => exact not_infix_of_length (by omega) hinside
      | inr hinside =>
        rw [← List.map_id (Words.replace _ _ _ _)] at hinside
        have hafter := Words.infix_of_infix_replace (List.map_id _) (toList_ne_nil hu) hvp hvp' hinside
        rw [List.map_id] at hafter
        exact not_infix_of_length (by omega) hafter
    rw [hreplace, Words.replace_eq_self hgone] at horder
    have hempty := congrArg List.length horder
    rw [List.length_append, List.length_append] at hempty
    have hbefore : before = [] := List.eq_nil_of_length_eq_zero (by omega)
    have hafter := Words.replace_eq_nil (List.cons_ne_nil _ _)
      (List.eq_nil_of_length_eq_zero (l := Words.replace id u.toList redactedPlaceholder.toList
        after) (by omega))
    rw [hbefore, hafter, List.nil_append, List.append_nil, hword] at htext
    exact hne (String.toList_injective htext.symm)

theorem not_redacts_of_overlap (hu : isBlank u = false) (hv : isBlank v = false)
    (hvp : Apart v.toList redactedPlaceholder.toList) (hnone : ¬ u.toList <:+: v.toList)
    (hk : k < u.toList.length) (hpart : u.toList.drop k <+: v.toList)
    (hne : u.toList.drop k ≠ v.toList) : ∃ text, ¬ Redacts text [u, v] := by
  obtain ⟨after, hafter⟩ := hpart
  have hlength := congrArg List.length hafter
  rw [List.length_append, List.length_drop] at hlength
  have htake : (u.toList.take k).length = k := List.length_take_of_le (Nat.le_of_lt hk)
  have heq := Words.append_overlap hafter
  have hu' : ¬ u.toList <:+: after := fun hinside =>
    hnone (hinside.trans (hafter ▸ (List.suffix_append _ _).isInfix))
  apply Exists.intro (String.ofList (u.toList ++ after))
  intro hredacts
  apply hredacts.removed u.toList.length
  · apply Exists.intro v
    apply And.intro (List.mem_cons_of_mem _ (List.mem_singleton_self _))
    apply Exists.intro (u.toList.take k)
    apply Exists.intro []
    rw [String.toList_ofList, heq, List.append_nil]
    have hpos : 0 < after.length := by
      apply List.length_pos_of_ne_nil
      intro hnil
      rw [hnil, List.append_nil] at hafter
      exact hne hafter
    exact ⟨rfl, by omega, by omega⟩
  · have hletters : redactLetters (.ofList (u.toList ++ after)) [u, v] =
        placeholderLetters ++ lettersFrom u.toList.length after := by
      change redactStep (redactLetters (.ofList (u.toList ++ after)) [u]) v = _
      rw [redactLetters_singleton hu String.toList_ofList hu', redactStep_eq hv,
        Words.replace_placeholder map_placeholderLetters (toList_ne_nil hv) hvp,
        Words.replace_eq_self]
      rw [map_lettersFrom]
      exact not_infix_of_length (by omega)
    rw [Survives, hletters]
    cases after with
    | nil =>
      rw [List.append_nil] at hafter
      exact absurd hafter hne
    | cons c after => exact ⟨c, List.mem_append_right _ List.mem_cons_self⟩

theorem singleton_subset {u : String} (h : u ∈ secrets) : [u] ⊆ secrets :=
  List.cons_subset.mpr ⟨h, List.nil_subset _⟩

theorem solid_of_redacts (hsecrets : ∀ secret ∈ secrets, isBlank secret = false)
    (h : ∀ text list, list ⊆ secrets → Redacts text list) :
    Solid (redactedPlaceholder.toList :: secrets.map String.toList) := by
  have hself (u) (hu : u ∈ secrets) : ¬ Clash u.toList u.toList := by
    intro hclash
    obtain ⟨text, htext⟩ := not_redacts_of_clash_self (hsecrets u hu) hclash
    exact htext (h text [u] (singleton_subset hu))
  have hplaceholder (u) (hu : u ∈ secrets) : Apart u.toList redactedPlaceholder.toList := by
    by_cases hne : u.toList = redactedPlaceholder.toList
    · rw [hne]
      exact placeholder_apart
    by_contra hclash
    obtain ⟨text, htext⟩ := not_redacts_of_clash (hsecrets u hu) (hself u hu) hne hclash
    exact htext (h text [u] (singleton_subset hu))
  have hpair (u) (hu : u ∈ secrets) (v) (hv : v ∈ secrets) : ¬ Clash u.toList v.toList := by
    by_cases hup : u.toList = redactedPlaceholder.toList
    · rw [hup]
      exact (hplaceholder v hv).2
    by_cases hvp : v.toList = redactedPlaceholder.toList
    · rw [hvp]
      exact (hplaceholder u hu).1
    by_cases hne : u = v
    · rw [hne]
      exact hself v hv
    have hnone : ¬ u.toList <:+: v.toList := fun hinside =>
      not_redacts_of_infix (hsecrets u hu) (hsecrets v hv) (hplaceholder u hu) (hplaceholder v hv)
        hup hvp hne hinside
        (h v [v, u] (List.cons_subset.mpr ⟨hv, singleton_subset hu⟩))
    intro hclash
    cases hclash with
    | inl hinside => exact hnone hinside.2
    | inr hover =>
      obtain ⟨k, hk, -, hdrop, hpart⟩ := hover
      obtain ⟨text, htext⟩ := not_redacts_of_overlap (hsecrets u hu) (hsecrets v hv)
        (hplaceholder v hv) hnone hk hpart hdrop
      exact htext (h text [u, v] (List.cons_subset.mpr ⟨hu, singleton_subset hv⟩))
  intro u hu v hv
  cases List.mem_cons.mp hu with
  | inl hu =>
    cases List.mem_cons.mp hv with
    | inl hv =>
      rw [hu, hv]
      exact placeholder_apart.1
    | inr hv =>
      obtain ⟨v', hv', rfl⟩ := List.mem_map.mp hv
      rw [hu]
      exact (hplaceholder v' hv').2
  | inr hu =>
    obtain ⟨u', hu', rfl⟩ := List.mem_map.mp hu
    cases List.mem_cons.mp hv with
    | inl hv =>
      rw [hv]
      exact (hplaceholder u' hu').1
    | inr hv =>
      obtain ⟨v', hv', rfl⟩ := List.mem_map.mp hv
      exact hpair u' hu' v' hv'

theorem separate_of_solid (h : Solid (redactedPlaceholder.toList :: secrets.map String.toList))
    (hlist : list ⊆ secrets) (text : String) : Separate text list := by
  have hmem {secret} (hsecret : secret ∈ list) :
      secret.toList ∈ redactedPlaceholder.toList :: secrets.map String.toList :=
    List.mem_cons_of_mem _ (List.mem_map_of_mem (hlist hsecret))
  constructor
  · exact fun secret hsecret => h.apart (hmem hsecret) List.mem_cons_self
  · exact fun u hu v hv => (h.apart (hmem hu) (hmem hv)).within _

/-- Secrets are taken out of a text in any order and without a rest where they do not overlap in it,
nor any with the placeholder; and out of every text where, and only where, none do. -/
theorem redactText_exact (hsecrets : ∀ secret ∈ secrets, isBlank secret = false) :
    (∀ text, Separate text secrets → Redacts text secrets) ∧
    ((∀ text list, list ⊆ secrets → Redacts text list) ↔
      Solid (redactedPlaceholder.toList :: secrets.map String.toList)) := by
  apply And.intro fun text h => h.redacts hsecrets
  constructor
  · exact solid_of_redacts hsecrets
  · intro h text list hlist
    exact (separate_of_solid h hlist text).redacts fun secret hsecret =>
      hsecrets secret (hlist hsecret)

theorem redactText_exact_sample :
    Redacts "auth failed for key abc-live-abc (abc-live-abc rejected)" ["abc-live-abc", "pw"] :=
  (redactText_exact (by decide)).1 _ (by decide +kernel)

/-- One key begins with another one. -/
theorem redactText_not_redacts : ¬ ∀ text secrets,
    (∀ secret ∈ secrets, isBlank secret = false) → Redacts text secrets := by
  intro h
  exact not_redacts_of_infix (u := "key-1") (v := "key-12") (by decide) (by decide) (by decide)
    (by decide) (by decide) (by decide) (by decide) (by decide)
    (h "key-12" ["key-12", "key-1"] (by decide))

end Cdesktop.Redact
