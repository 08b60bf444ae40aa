import Cdesktop.Config
import Cdesktop.EntryMap

/-! The profiles of the executors, of which only what differs from the defaults is stored. -/

namespace Cdesktop.Profiles
set_option autoImplicit true

inductive ProfileError where
  | cannotDeleteExecutor (executor : BaseCodingAgent)
  | cannotDeleteBuiltInConfig (executor : BaseCodingAgent) (variant : String)
  | validation (message : String)
deriving DecidableEq

/-- The types are those of an agent's configuration and of the record of the models used last, up to
the code's equality. The default record is the empty one. -/
structure ExecutorProfile (α ρ : Type) where
  recentlyUsedModels : Option ρ
  configurations : EntryMap String α

structure ExecutorConfigs (α ρ : Type) where
  executors : EntryMap BaseCodingAgent (ExecutorProfile α ρ)

variable {α ρ : Type}

namespace ExecutorConfigs

def fromDefaults (config : BaseCodingAgent → α) : ExecutorConfigs α ρ :=
  ⟨⟨[.claudeCode, .gemini, .codex, .opencode, .deepseekTui, .hermes].map fun executor =>
      (executor, ⟨none, ⟨[("DEFAULT", config executor)], List.nodup_singleton _⟩⟩),
    by simp⟩⟩

def replaceKey (configurations : EntryMap String α) (replacement : String × String) :
    EntryMap String α :=
  match configurations.get? replacement.1 with
  | some config =>
    let configurations := configurations.remove replacement.1
    if (configurations.get? replacement.2).isSome then configurations
    else configurations.insert replacement.2 config
  | none => configurations

def canonicaliseProfile (canonicalVariantKey : String → String) (profile : ExecutorProfile α ρ) :
    ExecutorProfile α ρ :=
  let replacements := profile.configurations.entries.filterMap fun e =>
    if canonicalVariantKey e.1 ≠ e.1 then some (e.1, canonicalVariantKey e.1) else none
  { profile with configurations := replacements.foldl replaceKey profile.configurations }

def canonicalise (canonicalVariantKey : String → String) (configs : ExecutorConfigs α ρ) :
    ExecutorConfigs α ρ :=
  ⟨configs.executors.mapValues (canonicaliseProfile canonicalVariantKey)⟩

def mergeProfile (defaultProfile overrideProfile : ExecutorProfile α ρ) : ExecutorProfile α ρ :=
  { recentlyUsedModels :=
      if overrideProfile.recentlyUsedModels.isSome then overrideProfile.recentlyUsedModels
      else defaultProfile.recentlyUsedModels
    configurations := EntryMap.walk (fun _ _ config => some config)
      overrideProfile.configurations.entries defaultProfile.configurations }

def mergeWithDefaults (defaults overrides : ExecutorConfigs α ρ) : ExecutorConfigs α ρ :=
  ⟨EntryMap.walk (fun _ defaultProfile overrideProfile =>
    match defaultProfile with
    | some defaultProfile => some (mergeProfile defaultProfile overrideProfile)
    | none => some overrideProfile) overrides.executors.entries defaults.executors⟩

def illegalDeletion (defaults current : ExecutorConfigs α ρ) : Option ProfileError :=
  defaults.executors.entries.findSome? fun e =>
    match current.executors.get? e.1 with
    | none => some (.cannotDeleteExecutor e.1)
    | some currentProfile => e.2.configurations.entries.findSome? fun config =>
      if (currentProfile.configurations.get? config.1).isNone then
        some (.cannotDeleteBuiltInConfig e.1 config.1)
      else none

section Compare
variable [DecidableEq α] [DecidableEq ρ] [Inhabited ρ]

def overrideConfigurations (defaultProfile currentProfile : ExecutorProfile α ρ) :
    EntryMap String α :=
  EntryMap.walk (fun configName _ currentConfig =>
    match defaultProfile.configurations.get? configName with
    | some defaultConfig => if currentConfig ≠ defaultConfig then some currentConfig else none
    | none => some currentConfig) currentProfile.configurations.entries .empty

def overridesOf (defaultProfile currentProfile : ExecutorProfile α ρ) : ExecutorProfile α ρ :=
  { recentlyUsedModels :=
      if currentProfile.recentlyUsedModels ≠ defaultProfile.recentlyUsedModels then
        currentProfile.recentlyUsedModels.or (some default)
      else none
    configurations := overrideConfigurations defaultProfile currentProfile }

/-- It is stored unless there is nothing in it. -/
def profileOverrides (defaultProfile currentProfile : ExecutorProfile α ρ) :
    Option (ExecutorProfile α ρ) :=
  let overrideProfile := overridesOf defaultProfile currentProfile
  if !overrideProfile.configurations.isEmpty || overrideProfile.recentlyUsedModels.isSome then
    some overrideProfile
  else none

def computeOverrides (defaults current : ExecutorConfigs α ρ) :
    Except ProfileError (ExecutorConfigs α ρ) :=
  match illegalDeletion defaults current with
  | some error => .error error
  | none => .ok ⟨EntryMap.walk (fun executorKey _ currentProfile =>
      match defaults.executors.get? executorKey with
      | some defaultProfile => profileOverrides defaultProfile currentProfile
      | none => some currentProfile) current.executors.entries .empty⟩

end Compare

def validateProfile (agent : α → BaseCodingAgent) (executor : BaseCodingAgent)
    (profile : ExecutorProfile α ρ) : Except ProfileError Unit :=
  match profile.configurations.get? "DEFAULT" with
  | none => .error (.validation
      ("Executor '" ++ executor.toString ++ "' is missing required 'default' configuration"))
  | some defaultConfig =>
    if agent defaultConfig ≠ executor then
      .error (.validation ("Executor key '" ++ executor.toString ++
        "' does not match the agent variant '" ++ (agent defaultConfig).toString ++ "'"))
    else profile.configurations.entries.forM fun config =>
      if "__".toList <+: config.1.toList then
        .error (.validation ("Configuration name '" ++ config.1 ++
          "' is reserved (starts with '__')"))
      else .ok ()

def validateMerged (agent : α → BaseCodingAgent) (merged : ExecutorConfigs α ρ) :
    Except ProfileError Unit :=
  merged.executors.entries.forM fun e => validateProfile agent e.1 e.2

section Store
variable [DecidableEq α] [DecidableEq ρ] [Inhabited ρ]
  (canonicalVariantKey : String → String) (agent : α → BaseCodingAgent)

def saveOverrides (fromDefaults configs : ExecutorConfigs α ρ) :
    Except ProfileError (ExecutorConfigs α ρ) := do
  let defaults := fromDefaults.canonicalise canonicalVariantKey
  let overrides ← computeOverrides defaults (configs.canonicalise canonicalVariantKey)
  validateMerged agent (mergeWithDefaults defaults overrides)
  return overrides

/-- `load`, where the file has been read. -/
def load (fromDefaults userOverrides : ExecutorConfigs α ρ) : ExecutorConfigs α ρ :=
  mergeWithDefaults (fromDefaults.canonicalise canonicalVariantKey)
    (userOverrides.canonicalise canonicalVariantKey)

end Store

end ExecutorConfigs

/-- The order of the entries does not count. -/
def ExecutorProfile.Same (p q : ExecutorProfile α ρ) : Prop :=
  p.recentlyUsedModels = q.recentlyUsedModels ∧
    ∀ name, p.configurations.get? name = q.configurations.get? name

theorem ExecutorProfile.Same.refl (p : ExecutorProfile α ρ) : p.Same p := ⟨rfl, fun _ => rfl⟩

theorem ExecutorProfile.Same.symm {p q : ExecutorProfile α ρ} (h : p.Same q) : q.Same p :=
  ⟨h.1.symm, fun name => (h.2 name).symm⟩

namespace ExecutorConfigs

def Same (c d : ExecutorConfigs α ρ) : Prop :=
  ∀ executor, Option.Rel ExecutorProfile.Same (c.executors.get? executor) (d.executors.get? executor)

theorem Same.symm {c d : ExecutorConfigs α ρ} (h : c.Same d) : d.Same c := by
  intro executor
  have hrel := h executor
  cases hc : c.executors.get? executor <;> cases hd : d.executors.get? executor <;>
    simp_all [ExecutorProfile.Same.symm]

def Complete (defaults current : ExecutorConfigs α ρ) : Prop :=
  ∀ executor d, defaults.executors.get? executor = some d →
    ∃ c, current.executors.get? executor = some c ∧
      ∀ name, c.configurations.get? name = none → d.configurations.get? name = none

def BuiltIn (defaults : ExecutorConfigs α ρ) : Prop :=
  ∀ executor d, defaults.executors.get? executor = some d → d.recentlyUsedModels = none

theorem builtIn_fromDefaults (config : BaseCodingAgent → α) :
    BuiltIn (fromDefaults config : ExecutorConfigs α ρ) := by
  intro executor d hd
  have hmem := EntryMap.get?_eq_some.mp hd
  obtain ⟨_, -, heq⟩ := List.mem_map.mp hmem
  cases heq
  rfl

variable {defaults current overrides configs : ExecutorConfigs α ρ} {c : ExecutorProfile α ρ}

theorem illegalDeletion_eq_none :
    illegalDeletion defaults current = none ↔ Complete defaults current := by
  rw [illegalDeletion, List.findSome?_eq_none_iff]
  constructor
  · intro h executor d hd
    have hscan := h _ (EntryMap.get?_eq_some.mp hd)
    cases hc : current.executors.get? executor with
    | none => simp [hc] at hscan
    | some c =>
      simp only [hc, List.findSome?_eq_none_iff] at hscan
      refine ⟨c, rfl, fun name hname => ?_⟩
      cases hdefault : d.configurations.get? name with
      | none => rfl
      | some config =>
        have hconfig := hscan _ (EntryMap.get?_eq_some.mp hdefault)
        simp [hname] at hconfig
  · rintro h ⟨executor, d⟩ he
    obtain ⟨c, hc, hnames⟩ := h executor d (EntryMap.get?_eq_some.mpr he)
    simp only [hc, List.findSome?_eq_none_iff]
    rintro ⟨name, config⟩ hconfig
    have hget := EntryMap.get?_eq_some.mpr hconfig
    refine if_neg fun hnone => ?_
    rw [hnames name (Option.isNone_iff_eq_none.mp hnone)] at hget
    cases hget

theorem get?_mergeWithDefaults (defaults overrides : ExecutorConfigs α ρ)
    (executor : BaseCodingAgent) : (mergeWithDefaults defaults overrides).executors.get? executor =
      match overrides.executors.get? executor with
      | some o => some ((defaults.executors.get? executor).elim o (mergeProfile · o))
      | none => defaults.executors.get? executor := by
  rw [mergeWithDefaults, EntryMap.get?_walk]
  cases overrides.executors.get? executor with
  | none => rfl
  | some o => cases defaults.executors.get? executor <;> rfl

theorem get?_mergeProfile (d o : ExecutorProfile α ρ) (name : String) :
    (mergeProfile d o).configurations.get? name =
      (o.configurations.get? name).or (d.configurations.get? name) := by
  rw [mergeProfile, EntryMap.get?_walk]
  cases o.configurations.get? name <;> rfl

theorem Complete.of_same {current' : ExecutorConfigs α ρ} (h : Complete defaults current)
    (hsame : current'.Same current) : Complete defaults current' := by
  intro executor d hd
  obtain ⟨c, hc, hnames⟩ := h executor d hd
  have hrel := hsame executor
  rw [hc] at hrel
  cases hc' : current'.executors.get? executor with
  | none => simp [hc'] at hrel
  | some c' =>
    rw [hc', Option.rel_some_some] at hrel
    exact ⟨c', rfl, fun name hname => hnames name ((hrel.2 name).symm.trans hname)⟩

section
variable (canonicalVariantKey : String → String) (agent : α → BaseCodingAgent)

def Canonical (configs : ExecutorConfigs α ρ) : Prop :=
  ∀ executor p, configs.executors.get? executor = some p →
    ∀ name config, p.configurations.get? name = some config → canonicalVariantKey name = name

def Valid (configs : ExecutorConfigs α ρ) : Prop :=
  ∀ executor p, configs.executors.get? executor = some p →
    (∃ config, p.configurations.get? "DEFAULT" = some config ∧ agent config = executor) ∧
      ∀ name config, p.configurations.get? name = some config → ¬"__".toList <+: name.toList

end

theorem canonical_fromDefaults {key : String → String} (config : BaseCodingAgent → α)
    (h : key "DEFAULT" = "DEFAULT") : Canonical key (fromDefaults config : ExecutorConfigs α ρ) := by
  intro executor p hp name c hc
  obtain ⟨_, -, heq⟩ := List.mem_map.mp (EntryMap.get?_eq_some.mp hp)
  cases heq
  cases List.mem_singleton.mp (EntryMap.get?_eq_some.mp hc)
  exact h

theorem canonicalise_eq_self {canonicalVariantKey : String → String}
    (h : Canonical canonicalVariantKey configs) : configs.canonicalise canonicalVariantKey = configs := by
  obtain ⟨⟨entries, hn⟩⟩ := configs
  have hprofile : ∀ e ∈ entries, canonicaliseProfile canonicalVariantKey e.2 = e.2 := by
    intro e he
    have hkeys := h e.1 e.2 (EntryMap.get?_eq_some.mpr he)
    have hnone : (e.2.configurations.entries.filterMap fun c =>
        if canonicalVariantKey c.1 ≠ c.1 then some (c.1, canonicalVariantKey c.1) else none) = [] := by
      refine List.filterMap_eq_nil_iff.mpr fun c hc => if_neg ?_
      exact not_not.mpr (hkeys c.1 c.2 (EntryMap.get?_eq_some.mpr hc))
    rw [canonicaliseProfile, hnone]
    rfl
  have hentries : entries.map (fun e => (e.1, canonicaliseProfile canonicalVariantKey e.2)) = entries := by
    refine (List.map_congr_left fun e he => ?_).trans (List.map_id entries)
    rw [hprofile e he]
    rfl
  simp only [canonicalise, EntryMap.mapValues, hentries]

theorem replaceKey_get? {configurations : EntryMap String α}
    (h : (replaceKey configurations r).get? name = some config) :
    name = r.2 ∨ name ≠ r.1 ∧ configurations.get? name = some config := by
  rw [replaceKey] at h
  split at h
  · dsimp only at h
    split at h
    · exact .inr (EntryMap.get?_remove.mp h)
    · rw [EntryMap.get?_insert] at h
      split at h
      · exact .inl ‹_›
      · exact .inr (EntryMap.get?_remove.mp h)
  · rename_i hnone
    refine .inr ⟨fun heq => ?_, h⟩
    rw [heq, hnone] at h
    cases h

theorem replaceKey_canonical {key : String → String} {configurations : EntryMap String α}
    {l : List (String × String)} (hl : ∀ r ∈ l, key r.2 = r.2)
    (h : ∀ name config, configurations.get? name = some config →
      key name = name ∨ name ∈ l.map Prod.fst) (name : String) (config : α)
    (hget : (l.foldl replaceKey configurations).get? name = some config) : key name = name := by
  induction l generalizing configurations with
  | nil => exact (h name config hget).resolve_right List.not_mem_nil
  | cons r l ih =>
    rw [List.forall_mem_cons] at hl
    refine ih hl.2 (fun name config hname => ?_) hget
    rcases replaceKey_get? hname with rfl | ⟨hne, hname⟩
    · exact .inl hl.1
    · exact (h name config hname).imp_right fun hm => (List.mem_cons.mp hm).resolve_left hne

theorem canonical_canonicalise {key : String → String} (hkey : ∀ name, key (key name) = key name)
    (configs : ExecutorConfigs α ρ) : Canonical key (configs.canonicalise key) := by
  intro executor p hp
  obtain ⟨e, -, he⟩ := List.mem_map.mp (EntryMap.get?_eq_some.mp hp)
  cases he
  refine replaceKey_canonical (fun r hr => ?_) fun name config hname => ?_
  · obtain ⟨c, -, hc⟩ := List.mem_filterMap.mp hr
    split at hc
    · cases hc
      exact hkey c.1
    · cases hc
  · by_cases heq : key name = name
    · exact .inl heq
    · refine .inr (List.mem_map.mpr ⟨(name, key name), List.mem_filterMap.mpr ?_, rfl⟩)
      exact ⟨_, EntryMap.get?_eq_some.mp hname, if_pos heq⟩

theorem forM_eq_ok {β ε : Type} {f : β → Except ε Unit} {l : List β} :
    forM l f = .ok () ↔ ∀ x ∈ l, f x = .ok () := by
  induction l with
  | nil => simp [pure, Except.pure]
  | cons x l ih =>
    rw [List.forM_cons, List.forall_mem_cons, ← ih]
    cases f x with
    | error e => simp [bind, Except.bind]
    | ok u => simp [bind, Except.bind]

theorem validateMerged_eq_ok {agent : α → BaseCodingAgent} :
    validateMerged agent configs = .ok () ↔ Valid agent configs := by
  rw [validateMerged, List.forM_eq_forM, forM_eq_ok]
  simp only [Valid, EntryMap.get?_eq_some, Prod.forall]
  refine forall₃_congr fun executor p _ => ?_
  rw [validateProfile]
  cases hd : p.configurations.get? "DEFAULT" with
  | none => simp [← EntryMap.get?_eq_some, hd]
  | some defaultConfig =>
    by_cases hagent : agent defaultConfig = executor
    · simp [← EntryMap.get?_eq_some, hd, hagent, forM_eq_ok]
    · simp [← EntryMap.get?_eq_some, hd, hagent]

theorem Valid.of_same {agent : α → BaseCodingAgent} {configs' : ExecutorConfigs α ρ}
    (h : Valid agent configs) (hsame : configs'.Same configs) : Valid agent configs' := by
  intro executor p hp
  have hrel := hsame executor
  rw [hp] at hrel
  cases hq : configs.executors.get? executor with
  | none => simp [hq] at hrel
  | some q =>
    rw [hq, Option.rel_some_some] at hrel
    simpa only [hrel.2] using h executor q hq

variable [DecidableEq α] [DecidableEq ρ] [Inhabited ρ]

omit [DecidableEq ρ] [Inhabited ρ] in
theorem get?_overrideConfigurations (d c : ExecutorProfile α ρ) (name : String) :
    (overrideConfigurations d c).get? name = (c.configurations.get? name).bind fun config =>
      match d.configurations.get? name with
      | some defaultConfig => if config ≠ defaultConfig then some config else none
      | none => some config := by
  rw [overrideConfigurations, EntryMap.get?_walk, EntryMap.get?_empty, Option.or_none]

theorem get?_merge_overridesOf {d : ExecutorProfile α ρ} (name : String)
    (h : c.configurations.get? name = none → d.configurations.get? name = none) :
    (mergeProfile d (overridesOf d c)).configurations.get? name = c.configurations.get? name := by
  rw [get?_mergeProfile, overridesOf, get?_overrideConfigurations]
  cases hc : c.configurations.get? name with
  | none => exact h hc
  | some config =>
    cases hd : d.configurations.get? name with
    | none => rfl
    | some defaultConfig =>
      by_cases heq : config = defaultConfig
      · simp [heq]
      · simp [heq]

theorem merge_profileOverrides (d c : ExecutorProfile α ρ) :
    ((profileOverrides d c).elim d (mergeProfile d)).Same (mergeProfile d (overridesOf d c)) := by
  rw [profileOverrides]
  split
  · exact ⟨rfl, fun _ => rfl⟩
  · rename_i hempty
    rw [Bool.or_eq_true, not_or, Bool.not_eq_true', Bool.not_eq_false] at hempty
    refine ⟨(if_neg hempty.2).symm, fun name => ?_⟩
    rw [get?_mergeProfile, EntryMap.isEmpty_iff.mp hempty.1]
    rfl

omit [DecidableEq α] in
theorem recent_restored (r q : Option ρ) :
    (if (if r ≠ q then r.or (some default) else none).isSome then
      if r ≠ q then r.or (some default) else none else q) = r ↔ (r = none → q = none) := by
  cases r with
  | none => cases q <;> simp
  | some recent =>
    by_cases heq : some recent = q
    · simp [heq]
    · simp [heq]

theorem recent_merge_overridesOf (d c : ExecutorProfile α ρ) :
    (mergeProfile d (overridesOf d c)).recentlyUsedModels = c.recentlyUsedModels ↔
      (c.recentlyUsedModels = none → d.recentlyUsedModels = none) :=
  recent_restored c.recentlyUsedModels d.recentlyUsedModels

omit [DecidableEq ρ] [Inhabited ρ] in
theorem isEmpty_overrideConfigurations {d c' : ExecutorProfile α ρ} (h : c.Same c') :
    (overrideConfigurations d c).isEmpty = (overrideConfigurations d c').isEmpty := by
  rw [Bool.eq_iff_iff, EntryMap.isEmpty_iff, EntryMap.isEmpty_iff]
  simp only [get?_overrideConfigurations, h.2]

theorem profileOverrides_congr (d : ExecutorProfile α ρ) {c' : ExecutorProfile α ρ}
    (h : c.Same c') : Option.Rel ExecutorProfile.Same (profileOverrides d c) (profileOverrides d c') := by
  have hrecent : (overridesOf d c).recentlyUsedModels = (overridesOf d c').recentlyUsedModels := by
    rw [overridesOf, overridesOf, h.1]
  have hempty : (overridesOf d c).configurations.isEmpty =
      (overridesOf d c').configurations.isEmpty := isEmpty_overrideConfigurations h
  rw [profileOverrides, profileOverrides, hrecent, hempty]
  split
  · refine .some ⟨hrecent, fun name => ?_⟩
    rw [overridesOf, overridesOf, get?_overrideConfigurations, get?_overrideConfigurations, h.2]
  · exact .none

section
variable (h : Complete defaults current)
include h

theorem computeOverrides_eq : ∃ overrides, computeOverrides defaults current = .ok overrides ∧
      ∀ executor, overrides.executors.get? executor =
        (current.executors.get? executor).bind fun c =>
          match defaults.executors.get? executor with
          | some d => profileOverrides d c
          | none => some c := by
  rw [computeOverrides, illegalDeletion_eq_none.mpr h]
  exact ⟨_, rfl, fun executor => by rw [EntryMap.get?_walk, EntryMap.get?_empty, Option.or_none]⟩

theorem mergeWithDefaults_same_iff (ho : computeOverrides defaults current = .ok overrides) :
    (mergeWithDefaults defaults overrides).Same current ↔
      ∀ executor d c, defaults.executors.get? executor = some d →
        current.executors.get? executor = some c →
        c.recentlyUsedModels = none → d.recentlyUsedModels = none := by
  obtain ⟨overrides, hok, hget⟩ := computeOverrides_eq h
  cases hok.symm.trans ho
  refine forall_congr' fun executor => ?_
  rw [get?_mergeWithDefaults, hget]
  cases hd : defaults.executors.get? executor with
  | none =>
    cases hc : current.executors.get? executor with
    | none => exact iff_of_true .none fun _ _ h => nomatch h
    | some c => exact iff_of_true (.some (.refl c)) fun _ _ h => nomatch h
  | some d =>
    obtain ⟨c, hc, hnames⟩ := h executor d hd
    have hmerged := merge_profileOverrides d c
    have heq : (match profileOverrides d c with
        | some o => some (mergeProfile d o)
        | none => some d) = some ((profileOverrides d c).elim d (mergeProfile d)) := by
      cases profileOverrides d c <;> rfl
    have hlost : (∀ d' c', some d = some d' → some c = some c' →
        c'.recentlyUsedModels = none → d'.recentlyUsedModels = none) ↔
        (c.recentlyUsedModels = none → d.recentlyUsedModels = none) := by
      refine ⟨fun h => h d c rfl rfl, ?_⟩
      rintro h _ _ ⟨⟩ ⟨⟩
      exact h
    simp only [hc, Option.bind_some, Option.elim_some, heq, hlost, ← recent_merge_overridesOf d c,
      Option.rel_some_some]
    constructor
    · exact fun h => hmerged.1.symm.trans h.1
    · refine fun hrecent => ⟨hmerged.1.trans hrecent, fun name => (hmerged.2 name).trans ?_⟩
      exact get?_merge_overridesOf name (hnames name)

theorem computeOverrides_congr {current' : ExecutorConfigs α ρ} (hsame : current'.Same current)
    (ho : computeOverrides defaults current = .ok overrides) :
    ∃ overrides', computeOverrides defaults current' = .ok overrides' ∧ overrides'.Same overrides := by
  obtain ⟨_, hok, hget⟩ := computeOverrides_eq h
  cases hok.symm.trans ho
  obtain ⟨overrides', hok', hget'⟩ := computeOverrides_eq (h.of_same hsame)
  refine ⟨overrides', hok', fun executor => ?_⟩
  rw [hget', hget]
  have hrel := hsame executor
  revert hrel
  cases current'.executors.get? executor with
  | none =>
    cases current.executors.get? executor with
    | none => exact fun _ => .none
    | some c => simp
  | some c' =>
    cases current.executors.get? executor with
    | none => simp
    | some c =>
      intro hrel
      rw [Option.rel_some_some] at hrel
      cases defaults.executors.get? executor with
      | none => exact .some hrel
      | some d => exact profileOverrides_congr d hrel

end

/-- The built-in defaults with what is stored of a configuration give it again, and what is stored of
that is the same. -/
theorem mergeWithDefaults_computeOverrides (defaults current : ExecutorConfigs α ρ)
    (hbuiltIn : BuiltIn defaults) (hcomplete : Complete defaults current) :
    ∃ overrides, computeOverrides defaults current = .ok overrides ∧
      (mergeWithDefaults defaults overrides).Same current ∧
      ∃ overrides', computeOverrides defaults (mergeWithDefaults defaults overrides) = .ok overrides' ∧
        overrides'.Same overrides := by
  obtain ⟨overrides, ho, -⟩ := computeOverrides_eq hcomplete
  have hsame := (mergeWithDefaults_same_iff hcomplete ho).mpr
    fun executor d c hd _ _ => hbuiltIn executor d hd
  exact ⟨overrides, ho, hsame, computeOverrides_congr hcomplete hsame ho⟩

/-- A variant beside the default one is stored, and read back. -/
theorem mergeWithDefaults_computeOverrides_sample :
    let current : ExecutorConfigs Nat Nat := ⟨(fromDefaults fun _ => 0).executors.insert .codex
      ⟨some 5, ⟨[("PLAN", 2), ("DEFAULT", 1)], by decide⟩⟩⟩
    ∃ overrides, computeOverrides (fromDefaults fun _ => 0) current = .ok overrides ∧
      (mergeWithDefaults (fromDefaults fun _ => 0) overrides).Same current ∧
      ∃ overrides', computeOverrides (fromDefaults fun _ => 0)
        (mergeWithDefaults (fromDefaults fun _ => 0) overrides) = .ok overrides' ∧
        overrides'.Same overrides :=
  mergeWithDefaults_computeOverrides _ _ (builtIn_fromDefaults _)
    (illegalDeletion_eq_none.mp (by decide))

theorem canonical_overrides {canonicalVariantKey : String → String}
    (hcomplete : Complete defaults current) (h : Canonical canonicalVariantKey current)
    (ho : computeOverrides defaults current = .ok overrides) :
    Canonical canonicalVariantKey overrides := by
  obtain ⟨_, hok, hget⟩ := computeOverrides_eq hcomplete
  cases hok.symm.trans ho
  intro executor o hexecutor name config hconfig
  rw [hget] at hexecutor
  obtain ⟨c, hc, hexecutor⟩ := Option.bind_eq_some_iff.mp hexecutor
  suffices hname : ∃ config, c.configurations.get? name = some config by
    obtain ⟨config, hname⟩ := hname
    exact h executor c hc name config hname
  cases hd : defaults.executors.get? executor with
  | none =>
    rw [hd] at hexecutor
    cases hexecutor
    exact ⟨config, hconfig⟩
  | some d =>
    rw [hd] at hexecutor
    simp only [profileOverrides, Option.ite_none_right_eq_some, Option.some.injEq] at hexecutor
    rw [← hexecutor.2, overridesOf, get?_overrideConfigurations] at hconfig
    obtain ⟨config', hname, -⟩ := Option.bind_eq_some_iff.mp hconfig
    exact ⟨config', hname⟩

/-- A configuration is saved where nothing built in is missing and it is valid, and is then loaded as
it is, under the canonical names of its variants. -/
theorem load_saveOverrides (key : String → String) (agent : α → BaseCodingAgent)
    (defaults current : ExecutorConfigs α ρ) (hkey : ∀ name, key (key name) = key name)
    (hbuiltIn : BuiltIn defaults) (hdefaults : Canonical key defaults) :
    ((∃ overrides, saveOverrides key agent defaults current = .ok overrides) ↔
      Complete defaults (current.canonicalise key) ∧ Valid agent (current.canonicalise key)) ∧
    ∀ overrides, saveOverrides key agent defaults current = .ok overrides →
      (load key defaults overrides).Same (current.canonicalise key) := by
  have hcanonical := canonical_canonicalise hkey current
  rw [saveOverrides, canonicalise_eq_self hdefaults]
  by_cases hcomplete : Complete defaults (current.canonicalise key)
  · obtain ⟨overrides, ho, -⟩ := computeOverrides_eq hcomplete
    have hsame := (mergeWithDefaults_same_iff hcomplete ho).mpr
      fun executor d c hd _ _ => hbuiltIn executor d hd
    have hload : (load key defaults overrides).Same (current.canonicalise key) := by
      rw [load, canonicalise_eq_self hdefaults,
        canonicalise_eq_self (canonical_overrides hcomplete hcanonical ho)]
      exact hsame
    rw [ho]
    by_cases hvalid : Valid agent (current.canonicalise key)
    · simp [bind, Except.bind, pure, Except.pure, validateMerged_eq_ok.mpr (hvalid.of_same hsame),
        hcomplete, hvalid, hload]
    · have hrefused : validateMerged agent (mergeWithDefaults defaults overrides) ≠ .ok () :=
        fun hok => hvalid ((validateMerged_eq_ok.mp hok).of_same hsame.symm)
      cases hv : validateMerged agent (mergeWithDefaults defaults overrides) with
      | error e => simp [bind, Except.bind, hv, hvalid]
      | ok => exact absurd hv hrefused
  · cases hdeletion : illegalDeletion defaults (current.canonicalise key) with
    | none => exact absurd (illegalDeletion_eq_none.mp hdeletion) hcomplete
    | some e => simp [computeOverrides, hdeletion, bind, Except.bind, hcomplete]

/-- A variant under a name in small letters. -/
theorem load_saveOverrides_sample :
    let key := fun name => if name = "plan" then "PLAN" else name
    let defaults : ExecutorConfigs (BaseCodingAgent × Nat) Nat := fromDefaults (·, 0)
    let current : ExecutorConfigs (BaseCodingAgent × Nat) Nat := ⟨defaults.executors.insert .codex
      ⟨some 5, ⟨[("plan", .codex, 2), ("DEFAULT", .codex, 1)], by decide⟩⟩⟩
    ∃ overrides, saveOverrides key Prod.fst defaults current = .ok overrides ∧
      (load key defaults overrides).Same (current.canonicalise key) := by
  intro key defaults current
  have hkey : ∀ name, key (key name) = key name := by
    intro name
    simp only [key]
    split <;> simp [*]
  obtain ⟨hsaved, hloaded⟩ := load_saveOverrides key Prod.fst defaults current hkey
    (builtIn_fromDefaults _) (canonical_fromDefaults _ rfl)
  obtain ⟨overrides, ho⟩ := hsaved.mpr
    ⟨illegalDeletion_eq_none.mp (by decide), validateMerged_eq_ok.mp (by decide)⟩
  exact ⟨overrides, ho, hloaded overrides ho⟩

end ExecutorConfigs

end Cdesktop.Profiles
