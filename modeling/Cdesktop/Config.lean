import Mathlib.Data.Nat.Basic

namespace Cdesktop
set_option autoImplicit true

abbrev Uuid := Nat

/-- Instants written by `datetime('now', 'subsec')` and `Utc::now`. -/
abbrev Time := Nat

inductive BaseCodingAgent where
  | claudeCode | amp | gemini | codex | opencode | cursorAgent | qwenCode | copilot | droid
  | deepseekTui | hermes
deriving DecidableEq

def BaseCodingAgent.toString : BaseCodingAgent → String
  | .claudeCode => "CLAUDE_CODE"
  | .amp => "AMP"
  | .gemini => "GEMINI"
  | .codex => "CODEX"
  | .opencode => "OPENCODE"
  | .cursorAgent => "CURSOR_AGENT"
  | .qwenCode => "QWEN_CODE"
  | .copilot => "COPILOT"
  | .droid => "DROID"
  | .deepseekTui => "DEEPSEEK_TUI"
  | .hermes => "HERMES"

inductive PermissionPolicy where
  | supervised | acceptEdits | plan | auto | bypassPermissions
deriving DecidableEq

structure ExecutorProfileId where
  executor : BaseCodingAgent
  variant : Option String
deriving DecidableEq

structure ExecutorConfig where
  executor : BaseCodingAgent
  variant : Option String
  modelId : Option String
  agentId : Option String
  reasoningId : Option String
  permissionPolicy : Option PermissionPolicy
deriving DecidableEq

def ExecutorConfig.new (executor : BaseCodingAgent) : ExecutorConfig :=
  ⟨executor, none, none, none, none, none⟩

def ExecutorConfig.profileId (c : ExecutorConfig) : ExecutorProfileId :=
  ⟨c.executor, c.variant⟩

inductive MeteredApprovalPolicy where
  | auto | ask | never
deriving DecidableEq

structure MeteredExecution where
  policy : MeteredApprovalPolicy
  accountAlias : Option String
deriving DecidableEq

structure SessionCommandConfig where
  executorConfig : ExecutorConfig
  selectedProviderId : Option Uuid
  authBindingId : Option Uuid
  metered : Option MeteredExecution
deriving DecidableEq

/-- The command declares metered execution under the `ask` policy. -/
def SessionCommandConfig.asks (c : SessionCommandConfig) : Bool :=
  match c.metered with
  | some m => m.policy = .ask
  | none => false

end Cdesktop
