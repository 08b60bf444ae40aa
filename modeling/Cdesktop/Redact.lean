import Cdesktop.TrustedKeys
import Cdesktop.Words

/-! Known secrets taken out of a text. -/

namespace Cdesktop.Redact
open TrustedKeys (isBlank)
set_option autoImplicit true

def redactedPlaceholder : String := "[REDACTED]"

/-- `str::replace` -/
def replace (text pattern placeholder : String) : String :=
  .ofList (Words.replace id pattern.toList placeholder.toList text.toList)

def redactText (text : String) (secrets : List String) : String :=
  secrets.foldl (fun redacted secret =>
    if isBlank secret then redacted else replace redacted secret redactedPlaceholder) text

/-- A letter and its place in the text, or none where it is one of a placeholder. -/
abbrev Letter := Char × Option Nat

def lettersFrom (i : Nat) : List Char → List Letter
  | [] => []
  | c :: cs => (c, some i) :: lettersFrom (i + 1) cs

def placeholderLetters : List Letter := redactedPlaceholder.toList.map (·, none)

def redactStep (redacted : List Letter) (secret : String) : List Letter :=
  if isBlank secret then redacted
  else Words.replace Prod.fst secret.toList placeholderLetters redacted

/-- `redactText` on letters that keep their places. -/
def redactLetters (text : String) (secrets : List String) : List Letter :=
  secrets.foldl redactStep (lettersFrom 0 text.toList)

def Covered (text : String) (secrets : List String) (i : Nat) : Prop :=
  ∃ secret ∈ secrets, ∃ before after, text.toList = before ++ (secret.toList ++ after) ∧
    before.length ≤ i ∧ i < before.length + secret.toList.length

def Survives (text : String) (secrets : List String) (i : Nat) : Prop :=
  ∃ c, (c, some i) ∈ redactLetters text secrets

/-- The result does not depend on the order and the repetition of the secrets, and holds no part of
an occurrence. -/
structure Redacts (text : String) (secrets : List String) : Prop where
  order : ∀ secrets', (∀ secret, secret ∈ secrets' ↔ secret ∈ secrets) →
    redactText text secrets' = redactText text secrets
  removed : ∀ i, Covered text secrets i → ¬ Survives text secrets i

theorem map_lettersFrom (i : Nat) (cs : List Char) : (lettersFrom i cs).map Prod.fst = cs := by
  induction cs generalizing i with
  | nil => rfl
  | cons c cs ih => exact congrArg (c :: ·) (ih (i + 1))

theorem lettersFrom_append (i : Nat) (cs cs' : List Char) :
    lettersFrom i (cs ++ cs') = lettersFrom i cs ++ lettersFrom (i + cs.length) cs' := by
  induction cs generalizing i with
  | nil => rfl
  | cons c cs ih =>
    rw [List.cons_append, lettersFrom, ih, lettersFrom, List.length_cons, Nat.add_right_comm,
      Nat.add_assoc]
    rfl

theorem place_of_mem_lettersFrom (h : (c, some i) ∈ lettersFrom start cs) :
    start ≤ i ∧ i < start + cs.length := by
  induction cs generalizing start with
  | nil => exact absurd h List.not_mem_nil
  | cons d cs ih =>
    rw [List.length_cons]
    cases h with
    | head => exact ⟨Nat.le_refl _, by omega⟩
    | tail _ h =>
      have hrest := ih h
      omega

@[simp] theorem map_placeholderLetters :
    placeholderLetters.map Prod.fst = redactedPlaceholder.toList := by
  rw [placeholderLetters, List.map_map]
  exact List.map_id _

theorem not_mem_placeholderLetters (c : Char) (i : Nat) : (c, some i) ∉ placeholderLetters := by
  intro h
  obtain ⟨d, -, hd⟩ := List.mem_map.mp h
  exact nomatch hd

theorem map_foldl_redactStep (letters : List Letter) (secrets : List String) :
    (secrets.foldl redactStep letters).map Prod.fst =
      (redactText (.ofList (letters.map Prod.fst)) secrets).toList := by
  induction secrets generalizing letters with
  | nil => exact (String.toList_ofList).symm
  | cons secret secrets ih =>
    rw [List.foldl_cons, ih]
    unfold redactText redactStep
    rw [List.foldl_cons]
    split
    · rfl
    · rw [Words.map_replace, map_placeholderLetters, replace, String.toList_ofList]

theorem map_redactLetters (text : String) (secrets : List String) :
    (redactLetters text secrets).map Prod.fst = (redactText text secrets).toList := by
  rw [redactLetters, map_foldl_redactStep, map_lettersFrom, String.ofList_toList]

theorem toList_ne_nil (h : isBlank secret = false) : secret.toList ≠ [] := by
  intro hnil
  rw [isBlank, hnil] at h
  exact nomatch h

theorem redactStep_eq (h : isBlank secret = false) (letters : List Letter) :
    redactStep letters secret =
      Words.replace Prod.fst secret.toList placeholderLetters letters := by
  rw [redactStep, if_neg (Bool.eq_false_iff.mp h)]

end Cdesktop.Redact
