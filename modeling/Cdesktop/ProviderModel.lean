import Cdesktop.Config
import Cdesktop.EntryMap
import Mathlib.Data.List.TakeWhile

/-! A picked model on its way to the session of the harness that runs it. -/

namespace Cdesktop.ProviderModel
set_option autoImplicit true

abbrev Text := List Char

/-- A harness's slot on a record. Of its other fields, those that one of the harnesses reads. -/
structure ProviderPayload (Json : Type) where
  baseUrl : Option String
  apiKey : Option String
  env : EntryMap String String
  npm : Option String
  options : EntryMap String Json

/-- A missing slot is one with nothing configured, and an empty text a missing one. -/
def ProviderPayload.fromSlot (slot : Option (ProviderPayload Json)) : ProviderPayload Json :=
  match slot with
  | none => ⟨none, none, .empty, none, .empty⟩
  | some slot =>
    { slot with
      baseUrl := slot.baseUrl.filter (· ≠ "")
      apiKey := slot.apiKey.filter (· ≠ "")
      npm := slot.npm.filter (· ≠ "") }

inductive AiProviderKind where
  | default | preset | custom
deriving DecidableEq

structure Provider (Json : Type) where
  kind : AiProviderKind
  name : String
  presetId : Option Text
  enabled : Bool
  apiKey : Option String
  slots : String → Option (ProviderPayload Json)
  enabledModels : List Text

structure ProviderContext (Json : Type) where
  ambient : Bool
  recordName : String
  slug : Text
  apiKey : Option String
  payload : ProviderPayload Json
  enabledModels : List Text
  modelId : Text

/-- What `OPENCODE_CONFIG_CONTENT` says of a provider; the models are the keys of a map. -/
structure RegisteredProvider (Json : Type) where
  npm : Option String
  name : String
  options : EntryMap String Json
  models : List Text

inductive EnvValue (Json : Type) where
  | text (value : String)
  | config (provider : List (Text × RegisteredProvider Json))

abbrev ProviderInjection (Json : Type) := EntryMap String (EnvValue Json)

inductive ProviderError where
  | unregisteredAgent (agent : BaseCodingAgent)
  | missingApiKey (agent : BaseCodingAgent)
  | missingBaseUrl (agent : BaseCodingAgent)
  | emptyEnabledModels
  | disabled (name : String)

/-- The name of a harness's slot; the Claude Code one is the trait's own. -/
def providerSlot : BaseCodingAgent → String
  | .opencode => "opencode"
  | .codex => "codex"
  | .gemini => "gemini"
  | .deepseekTui => "deepseekTui"
  | .hermes => "hermes"
  | .claudeCode | .amp | .cursorAgent | .qwenCode | .copilot | .droid => "claude"

/-- The model id in the harness's own form: for all but one it is the vendor's. -/
def providerModelId (agent : BaseCodingAgent) (ctx : ProviderContext Json) : Text :=
  match agent with
  | .opencode =>
    if ctx.ambient ∨ ctx.slug ++ ['/'] <+: ctx.modelId then ctx.modelId
    else ctx.slug ++ ['/'] ++ ctx.modelId
  | _ => ctx.modelId

/-- `Opencode::build_provider_injection`, where `json` is the JSON of a text -/
def buildProviderInjection (json : String → Json) (ctx : ProviderContext Json) :
    Except ProviderError (ProviderInjection Json) :=
  match ctx.apiKey, ctx.payload.baseUrl with
  | none, _ => .error (.missingApiKey .opencode)
  | some _, none => .error (.missingBaseUrl .opencode)
  | some apiKey, some baseUrl =>
    if ctx.enabledModels = [] then .error .emptyEnabledModels
    else
      let provider : RegisteredProvider Json :=
        { npm := ctx.payload.npm
          name := ctx.recordName
          options := (ctx.payload.options.insert "baseURL" (json baseUrl)).insert "apiKey"
            (json apiKey)
          models := ctx.enabledModels }
      .ok ((ctx.payload.env.mapValues EnvValue.text).insert "OPENCODE_CONFIG_CONTENT"
        (.config [(ctx.slug, provider)]))

/-- The harnesses: which of them are registered, and what the others than OpenCode inject. -/
structure Harnesses (Json : Type) where
  registered : BaseCodingAgent → Bool
  json : String → Json
  others : BaseCodingAgent → ProviderContext Json → Except ProviderError (ProviderInjection Json)

namespace Provider
variable (p : Provider Json) (x : Harnesses Json)

/-- The record as the harness sees it. A key in its slot goes before the record's own. -/
def contextFor (agent : BaseCodingAgent) (modelId : Text) : ProviderContext Json :=
  let payload := ProviderPayload.fromSlot (p.slots (providerSlot agent))
  { ambient := p.kind = .default
    recordName := p.name
    slug := p.presetId.getD "custom".toList
    apiKey := payload.apiKey.or (p.apiKey.filter (· ≠ ""))
    payload
    enabledModels := p.enabledModels
    modelId }

def translate (agent : BaseCodingAgent) (modelId : Text) : Except ProviderError Text :=
  if x.registered agent then .ok (providerModelId agent (p.contextFor agent modelId))
  else .error (.unregisteredAgent agent)

def resolveInjection (agent : BaseCodingAgent) (modelId : Text) :
    Except ProviderError (Text × ProviderInjection Json) :=
  if x.registered agent then
    let ctx := p.contextFor agent modelId
    let ctx := { ctx with modelId := providerModelId agent ctx }
    if ctx.ambient then .ok (ctx.modelId, .empty)
    else
      match if agent = .opencode then buildProviderInjection x.json ctx else x.others agent ctx with
      | .error error => .error error
      | .ok injection => .ok (ctx.modelId, injection)
  else .error (.unregisteredAgent agent)

/-- `resolve_for_launch` with the record of the binding: the model id of the configuration, where
it has one, and the injection -/
def resolveForLaunch (agent : BaseCodingAgent) (modelId : Option Text) :
    Except ProviderError (Option Text × ProviderInjection Json) :=
  if ¬ p.enabled then .error (.disabled p.name)
  else
    match p.resolveInjection x agent (modelId.getD []) with
    | .error error => .error error
    | .ok (id, injection) => .ok (modelId.map fun _ => id, injection)

/-- The id after so many routes that translate it. -/
def translated (agent : BaseCodingAgent) : Nat → Text → Except ProviderError Text
  | 0, modelId => .ok modelId
  | n + 1, modelId => (p.translate x agent modelId).bind (translated agent n)

end Provider

structure ModelSpec where
  providerId : Text
  modelId : Text

/-- `split_once('/')`, and all of the id where it has no slash -/
def parseModel (model : Text) : ModelSpec :=
  if '/' ∈ model then
    ⟨model.takeWhile (· ≠ '/'), (model.dropWhile (· ≠ '/')).tail⟩
  else ⟨model, []⟩

/-- What the session API gets: `apply_overrides` keeps the harness's own model where none is set. -/
def sessionModel (own modelId : Option Text) : Option ModelSpec :=
  ((modelId.filter (· ≠ [])).or own).map parseModel

/-- The session gets a provider that the injection registers, and the model, which is one of its. -/
def Launches (modelId : Text) (injection : ProviderInjection Json) (spec : Option ModelSpec) :
    Prop :=
  ∃ registered provider, spec = some ⟨registered, modelId⟩ ∧
    injection.get? "OPENCODE_CONFIG_CONTENT" = some (.config [(registered, provider)]) ∧
    modelId ∈ provider.models

theorem providerModelId_opencode {p : Provider Json} (hambient : p.kind ≠ .default)
    (modelId : Text) : providerModelId .opencode (p.contextFor .opencode modelId) =
      if p.presetId.getD "custom".toList ++ ['/'] <+: modelId then modelId
      else p.presetId.getD "custom".toList ++ ['/'] ++ modelId := by
  simp only [providerModelId, Provider.contextFor, decide_eq_true_iff, hambient, false_or]

theorem providerModelId_again (p : Provider Json) (agent : BaseCodingAgent) (modelId : Text) :
    providerModelId agent (p.contextFor agent (providerModelId agent (p.contextFor agent modelId))) =
      providerModelId agent (p.contextFor agent modelId) := by
  cases agent with
  | opencode =>
    by_cases hambient : p.kind = .default
    · simp [providerModelId, Provider.contextFor, hambient]
    · rw [providerModelId_opencode hambient, providerModelId_opencode hambient]
      split
      next => rfl
      next => rw [if_pos (List.prefix_append _ _)]
  | _ => rfl

theorem translate_again (p : Provider Json) (x : Harnesses Json) (agent : BaseCodingAgent)
    (modelId : Text) :
    (p.translate x agent modelId).bind (p.translate x agent) = p.translate x agent modelId := by
  unfold Provider.translate
  split
  · exact congrArg Except.ok (providerModelId_again p agent modelId)
  · rfl

/-- However often the id is translated, the last translation gives what the first one would. -/
theorem translated_last {p : Provider Json} {x : Harnesses Json}
    (h : p.translated x agent n modelId = .ok picked) :
    providerModelId agent (p.contextFor agent picked) =
      providerModelId agent (p.contextFor agent modelId) := by
  induction n generalizing modelId with
  | zero => rw [Except.ok.inj h]
  | succ n ih =>
    rw [Provider.translated, Provider.translate] at h
    split at h
    · exact (ih h).trans (providerModelId_again p agent modelId)
    · cases h

theorem parseModel_append (hslug : '/' ∉ slug) (modelId : Text) :
    parseModel (slug ++ ['/'] ++ modelId) = ⟨slug, modelId⟩ := by
  have hall : ∀ c ∈ slug, decide (c ≠ '/') = true := fun c hc =>
    decide_eq_true fun heq => hslug (heq ▸ hc)
  rw [List.append_assoc, List.singleton_append, parseModel,
    if_pos (List.mem_append_right _ List.mem_cons_self), List.takeWhile_append_of_pos hall,
    List.dropWhile_append_of_pos hall]
  simp

theorem parseModel_spec (model : Text) (hslash : '/' ∈ model) :
    '/' ∉ (parseModel model).providerId ∧ (parseModel model).modelId ≠ model := by
  rw [parseModel, if_pos hslash]
  refine ⟨fun hmem => ?_, fun heq => ?_⟩
  · exact absurd (List.mem_takeWhile_imp hmem) (by decide)
  · have hle := (List.dropWhile_suffix (l := model) (· ≠ '/')).length_le
    have hlength := congrArg List.length heq
    have hpos := List.length_pos_of_mem hslash
    rw [List.length_tail] at hlength
    omega

theorem buildProviderInjection_registers {ctx : ProviderContext Json}
    (h : buildProviderInjection json ctx = .ok injection) :
    ∃ provider, injection.get? "OPENCODE_CONFIG_CONTENT" = some (.config [(ctx.slug, provider)]) ∧
      provider.models = ctx.enabledModels := by
  unfold buildProviderInjection at h
  split at h
  · cases h
  · cases h
  · split at h
    · cases h
    · rw [← Except.ok.inj h, EntryMap.get?_insert, if_pos rfl]
      exact ⟨_, rfl, rfl⟩

theorem resolveForLaunch_opencode {p : Provider Json} (hambient : p.kind ≠ .default)
    (h : p.resolveForLaunch x .opencode (some picked) = .ok (modelId, injection)) :
    modelId = some (providerModelId .opencode (p.contextFor .opencode picked)) ∧
      ∃ provider, injection.get? "OPENCODE_CONFIG_CONTENT" =
          some (.config [(p.presetId.getD "custom".toList, provider)]) ∧
        provider.models = p.enabledModels := by
  unfold Provider.resolveForLaunch at h
  split at h
  · cases h
  · split at h
    · cases h
    next id injection' hresolved =>
      obtain ⟨rfl, rfl⟩ := Prod.mk.inj (Except.ok.inj h)
      unfold Provider.resolveInjection at hresolved
      split at hresolved
      · rw [if_neg (by simpa [Provider.contextFor] using hambient), if_pos rfl] at hresolved
        split at hresolved
        · cases hresolved
        next hbuild =>
          obtain ⟨rfl, rfl⟩ := Prod.mk.inj (Except.ok.inj hresolved)
          exact ⟨rfl, buildProviderInjection_registers hbuild⟩
      · cases hresolved

/-- What is launched is what was picked where the slug of the record has no slash and the vendor's
id does not begin with it. -/
theorem selected_model_launched_iff {p : Provider Json} (x : Harnesses Json) (own : Option Text)
    (n : Nat) (hambient : p.kind ≠ .default) (hm : m ∈ p.enabledModels)
    (hpicked : p.translated x .opencode n m = .ok picked)
    (h : p.resolveForLaunch x .opencode (some picked) = .ok (modelId, injection)) :
    (Launches m injection (sessionModel own modelId) ∧ ∀ agent id,
        (p.translate x agent id).bind (p.translate x agent) = p.translate x agent id) ↔
      '/' ∉ p.presetId.getD "custom".toList ∧
        ¬ p.presetId.getD "custom".toList ++ ['/'] <+: m := by
  obtain ⟨rfl, provider, hregistered, hmodels⟩ := resolveForLaunch_opencode hambient h
  rw [translated_last hpicked, providerModelId_opencode hambient, and_iff_left (translate_again p x)]
  generalize p.presetId.getD "custom".toList = slug at hregistered ⊢
  have hslash : ∀ rest, '/' ∈ slug ++ ['/'] ++ rest := fun rest =>
    List.mem_append_left _ (List.mem_append_right _ List.mem_cons_self)
  have hsession : ∀ id, '/' ∈ id → sessionModel own (some id) = some (parseModel id) := by
    intro id hmem
    rw [sessionModel, Option.filter_some, if_pos (decide_eq_true (List.ne_nil_of_mem hmem))]
    rfl
  split
  next hbegins =>
    refine iff_of_false ?_ fun hcond => hcond.2 hbegins
    obtain ⟨rest, rfl⟩ := hbegins
    rintro ⟨registered, provider', hspec, -⟩
    rw [hsession _ (hslash rest)] at hspec
    exact (parseModel_spec _ (hslash rest)).2 (congrArg ModelSpec.modelId (Option.some.inj hspec))
  next hbegins =>
    rw [hsession _ (hslash m), and_iff_left hbegins]
    constructor
    · rintro ⟨registered, provider', hspec, hget, -⟩
      rw [hregistered] at hget
      cases hget
      have hfree := (parseModel_spec _ (hslash m)).1
      rwa [Option.some.inj hspec] at hfree
    · intro hslug
      exact ⟨slug, provider, congrArg some (parseModel_append hslug m), hregistered,
        hmodels ▸ hm⟩

def openRouter (m : Text) : Provider String :=
  { kind := .preset
    name := "OpenRouter"
    presetId := some "openrouter".toList
    enabled := true
    apiKey := some "sk-or"
    slots := fun _ => some ⟨some "https://openrouter.ai/api/v1", none, .empty, none, .empty⟩
    enabledModels := [m] }

def onlyOpenCode : Harnesses String :=
  { registered := fun agent => agent = .opencode
    json := id
    others := fun _ _ => .ok .empty }

/-- An id that a route, a queued configuration and the launch translate. -/
theorem selected_model_launched_mini : ∃ injection,
    (openRouter "openai/gpt-mini".toList).resolveForLaunch onlyOpenCode .opencode
      (some "openrouter/openai/gpt-mini".toList) =
        .ok (some "openrouter/openai/gpt-mini".toList, injection) ∧
    Launches "openai/gpt-mini".toList injection
      (sessionModel none (some "openrouter/openai/gpt-mini".toList)) :=
  ⟨_, rfl, ((selected_model_launched_iff (p := openRouter "openai/gpt-mini".toList) onlyOpenCode
    none 2 (by decide) (.head _) rfl rfl).mpr ⟨by decide, by decide⟩).1⟩

/-- The vendor's own id begins with the slug of the record, and loses it. -/
theorem not_selected_model_launched :
    ¬ ∀ (p : Provider String) (m : Text), p.kind ≠ .default → m ∈ p.enabledModels →
      ∀ n picked modelId injection, p.translated onlyOpenCode .opencode n m = .ok picked →
        p.resolveForLaunch onlyOpenCode .opencode (some picked) = .ok (modelId, injection) →
          Launches m injection (sessionModel none modelId) := by
  intro h
  obtain ⟨_, _, hspec, -⟩ :=
    h (openRouter "openrouter/auto".toList) _ (by decide) (.head _) 0 _ _ _ rfl rfl
  exact (parseModel_spec "openrouter/auto".toList (by decide)).2
    (congrArg ModelSpec.modelId (Option.some.inj hspec))

end Cdesktop.ProviderModel
