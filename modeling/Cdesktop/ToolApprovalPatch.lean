import Cdesktop.ToolApproval
import Mathlib.Data.List.Induction

namespace Cdesktop.ToolApproval
set_option autoImplicit true

inductive Json where
  | info (i : ApprovalInfo)
  | object (fields : String → Option Json)

inductive PatchOperation where
  | replace (path : String) (value : Json)
  | add (path : String) (value : Json)
  | remove (path : String)

def replaceChar (c : Char) (replacement s : List Char) : List Char :=
  s.flatMap fun d => if d = c then replacement else [d]

def escapePointerSegment (s : String) : String :=
  String.ofList (replaceChar '/' ['~', '1'] (replaceChar '~' ['~', '0'] s.toList))

def pendingPath : String := "/pending"

def approvalPath (id : String) : String := pendingPath ++ "/" ++ escapePointerSegment id

def ApprovalPatch.operations : ApprovalPatch → List PatchOperation
  | .snapshot pending =>
    [.replace pendingPath (.object fun id => (pending id).map .info)]
  | .created info => [.replace (approvalPath info.approvalId) (.info info)]
  | .resolved id => [.remove (approvalPath id)]

/-- Every `~d` becomes `c`, from the left. -/
def unescape (d c : Char) : List Char → List Char
  | '~' :: e :: rest => if e = d then c :: unescape d c rest else '~' :: unescape d c (e :: rest)
  | e :: rest => e :: unescape d c rest
  | [] => []

def pointer (path : String) : List String :=
  ((path.toList.splitOn '/').drop 1).map fun token =>
    String.ofList (unescape '0' '~' (unescape '1' '/' token))

def Json.get : List String → Json → Option Json
  | [], json => some json
  | key :: rest, .object fields =>
    match fields key with
    | some child => child.get rest
    | none => none
  | _ :: _, .info _ => none

def Json.replace (value : Json) : List String → Json → Option Json
  | [key], .object fields =>
    match fields key with
    | some _ => some (.object (Function.update fields key (some value)))
    | none => none
  | key :: next :: rest, .object fields =>
    match fields key with
    | some child =>
      (Json.replace value (next :: rest) child).map fun child =>
        .object (Function.update fields key (some child))
    | none => none
  | _, _ => none

def Json.add (value : Json) : List String → Json → Option Json
  | [key], .object fields => some (.object (Function.update fields key (some value)))
  | key :: next :: rest, .object fields =>
    match fields key with
    | some child =>
      (Json.add value (next :: rest) child).map fun child =>
        .object (Function.update fields key (some child))
    | none => none
  | _, _ => none

def Json.remove : List String → Json → Option Json
  | [key], .object fields =>
    match fields key with
    | some _ => some (.object (Function.update fields key none))
    | none => none
  | key :: next :: rest, .object fields =>
    match fields key with
    | some child =>
      (child.remove (next :: rest)).map fun child =>
        .object (Function.update fields key (some child))
    | none => none
  | _, _ => none

def applyPatch (target : Json) : PatchOperation → Option Json
  | .replace path value => Json.replace value (pointer path) target
  | .add path value => Json.add value (pointer path) target
  | .remove path => target.remove (pointer path)

/-- An operation that fails is ignored, but a `replace` of what is missing adds it. -/
def applyUpsertOperation (target : Json) (op : PatchOperation) : Json :=
  match applyPatch target op, op with
  | some target, _ => target
  | none, .replace path value => (applyPatch target (.add path value)).getD target
  | none, _ => target

def applyUpsertPatch (target : Json) (ops : List PatchOperation) : Json :=
  ops.foldl applyUpsertOperation target

/-- What the client begins with: `{ pending: {} }`. -/
def approvalState (pending : String → Option ApprovalInfo) : Json :=
  .object fun key =>
    if key = "pending" then some (.object fun id => (pending id).map .info) else none

def clientView (patches : List ApprovalPatch) : Json :=
  patches.foldl (fun target patch => applyUpsertPatch target patch.operations)
    (approvalState fun _ => none)

def escapeChar (c : Char) : List Char :=
  if c = '~' then ['~', '0'] else if c = '/' then ['~', '1'] else [c]

theorem escape_eq (s : List Char) :
    replaceChar '/' ['~', '1'] (replaceChar '~' ['~', '0'] s) = s.flatMap escapeChar := by
  induction s with
  | nil => rfl
  | cons c s ih =>
    have htail : (replaceChar '~' ['~', '0'] s).flatMap
        (fun d => if d = '/' then ['~', '1'] else [d]) = s.flatMap escapeChar := ih
    by_cases htilde : c = '~'
    · simp [replaceChar, escapeChar, htilde] at htail ⊢
      exact htail
    · by_cases hslash : c = '/'
      · simp [replaceChar, escapeChar, hslash] at htail ⊢
        exact htail
      · simp [replaceChar, escapeChar, htilde, hslash] at htail ⊢
        exact htail

theorem slash_not_mem_escape (s : List Char) : '/' ∉ s.flatMap escapeChar := by
  simp only [List.mem_flatMap, not_exists, not_and]
  intro c _ hslash
  rw [escapeChar] at hslash
  split_ifs at hslash with htilde hc
  · simp at hslash
  · simp at hslash
  · exact hc (List.mem_singleton.mp hslash).symm

theorem unescape_cons (hc : c ≠ '~') (s : List Char) :
    unescape d e (c :: s) = c :: unescape d e s := by
  rw [unescape.eq_def]
  cases s <;> simp_all

theorem unescape_escape (s : List Char) :
    unescape '0' '~' (unescape '1' '/' (s.flatMap escapeChar)) = s := by
  induction s with
  | nil => rfl
  | cons c s ih =>
    rw [List.flatMap_cons]
    by_cases htilde : c = '~'
    · have hescape : escapeChar c = ['~', '0'] := by simp [escapeChar, htilde]
      rw [hescape, htilde]
      simp only [List.cons_append, List.nil_append]
      have hzero : ('0' : Char) ≠ '1' := by decide
      rw [unescape, if_neg hzero, unescape_cons (show ('0' : Char) ≠ '~' by decide), unescape,
        if_pos rfl, ih]
    · by_cases hslash : c = '/'
      · have hescape : escapeChar c = ['~', '1'] := by simp [escapeChar, hslash]
        rw [hescape, hslash]
        simp only [List.cons_append, List.nil_append]
        rw [unescape, if_pos rfl, unescape_cons (by decide), ih]
      · have hescape : escapeChar c = [c] := by simp [escapeChar, htilde, hslash]
        rw [hescape, List.singleton_append, unescape_cons htilde, unescape_cons htilde, ih]

theorem pointer_pendingPath : pointer pendingPath = ["pending"] := by
  decide +kernel

theorem pointer_approvalPath (id : String) : pointer (approvalPath id) = ["pending", id] := by
  have hpath : (approvalPath id).toList =
      [] ++ '/' :: (['p', 'e', 'n', 'd', 'i', 'n', 'g'] ++ '/' :: id.toList.flatMap escapeChar) := by
    simp [approvalPath, pendingPath, escapePointerSegment, escape_eq]
  have hid := List.splitOn_eq_singleton (slash_not_mem_escape id.toList)
  rw [pointer, hpath, List.splitOn_append_cons_self, List.splitOn_append_cons_self, hid,
    List.splitOn_eq_singleton (by decide), List.splitOn_eq_singleton (by decide)]
  simp [unescape_escape, unescape]

def ApprovalPatch.about (id : String) : ApprovalPatch → Option (Option ApprovalInfo)
  | .snapshot pending => some (pending id)
  | .created info => if info.approvalId = id then some (some info) else none
  | .resolved id' => if id' = id then some none else none

def lastAbout (id : String) (patches : List ApprovalPatch) : Option (Option ApprovalInfo) :=
  patches.foldl (fun last patch => (patch.about id).or last) none

theorem lastAbout_append (id : String) (patches patches' : List ApprovalPatch) :
    lastAbout id (patches ++ patches') = (lastAbout id patches').or (lastAbout id patches) := by
  induction patches' using List.reverseRecOn with
  | nil => simp [lastAbout]
  | append_singleton patches' patch ih =>
    simp only [lastAbout, ← List.append_assoc, List.foldl_append] at ih ⊢
    rw [List.foldl_cons, List.foldl_nil, List.foldl_cons, List.foldl_nil, ih, Option.or_assoc]

@[simp] theorem lastAbout_nil (id : String) : lastAbout id [] = none := rfl

@[simp] theorem lastAbout_singleton (id : String) (patch : ApprovalPatch) :
    lastAbout id [patch] = patch.about id := by
  simp [lastAbout]

theorem update_approvalState (fields : String → Option Json) (id : String)
    (i : Option ApprovalInfo) (hfields : fields = fun id => (pending id).map .info) :
    Json.object (Function.update (fun key =>
      if key = "pending" then some (.object fun id => (pending id).map .info) else none)
      "pending" (some (.object (Function.update fields id (i.map .info))))) =
        approvalState (Function.update pending id i) := by
  subst hfields
  rw [approvalState]
  congr 1
  funext key
  by_cases hkey : key = "pending"
  · subst hkey
    simp only [Function.update_self, if_pos]
    congr 2
    funext id'
    by_cases hid : id' = id
    · subst hid
      simp
    · simp [hid]
  · simp [hkey]

theorem applyUpsertPatch_approvalState (patch : ApprovalPatch)
    (pending : String → Option ApprovalInfo) :
    applyUpsertPatch (approvalState pending) patch.operations =
      approvalState fun id => (patch.about id).getD (pending id) := by
  cases patch with
  | snapshot pending' =>
    simp only [applyUpsertPatch, ApprovalPatch.operations, List.foldl_cons, List.foldl_nil,
      applyUpsertOperation, applyPatch, pointer_pendingPath, approvalState, Json.replace, if_pos]
    congr 1
    funext key
    by_cases hkey : key = "pending"
    · subst hkey
      simp [ApprovalPatch.about]
    · simp [hkey]
  | created info =>
    have hafter : (fun id => ((ApprovalPatch.created info).about id).getD (pending id)) =
        Function.update pending info.approvalId (some info) := by
      funext id
      by_cases hid : info.approvalId = id
      · subst hid
        simp [ApprovalPatch.about]
      · simp [ApprovalPatch.about, hid, Function.update_of_ne (Ne.symm hid)]
    rw [hafter, ← update_approvalState _ _ (some info) rfl]
    cases hpending : pending info.approvalId with
    | some i =>
      simp [applyUpsertPatch, ApprovalPatch.operations, applyUpsertOperation, applyPatch,
        pointer_approvalPath, approvalState, Json.replace, hpending]
    | none =>
      simp [applyUpsertPatch, ApprovalPatch.operations, applyUpsertOperation, applyPatch,
        pointer_approvalPath, approvalState, Json.replace, Json.add, hpending]
  | resolved id =>
    have hafter : (fun id' => ((ApprovalPatch.resolved id).about id').getD (pending id')) =
        Function.update pending id none := by
      funext id'
      by_cases hid : id = id'
      · subst hid
        simp [ApprovalPatch.about]
      · simp [ApprovalPatch.about, hid, Function.update_of_ne (Ne.symm hid)]
    rw [hafter]
    cases hpending : pending id with
    | some i =>
      rw [← update_approvalState _ _ none rfl]
      simp [applyUpsertPatch, ApprovalPatch.operations, applyUpsertOperation, applyPatch,
        pointer_approvalPath, approvalState, Json.remove, hpending]
    | none =>
      have hsame : Function.update pending id none = pending := by
        rw [← hpending, Function.update_eq_self]
      rw [hsame]
      simp [applyUpsertPatch, ApprovalPatch.operations, applyUpsertOperation, applyPatch,
        pointer_approvalPath, approvalState, Json.remove, hpending]

theorem clientView_eq (patches : List ApprovalPatch) :
    clientView patches = approvalState fun id => (lastAbout id patches).getD none := by
  induction patches using List.reverseRecOn with
  | nil => rfl
  | append_singleton patches patch ih =>
    have hstep : clientView (patches ++ [patch]) =
        applyUpsertPatch (clientView patches) patch.operations := by
      simp [clientView]
    rw [hstep, ih, applyUpsertPatch_approvalState]
    congr 1
    funext id
    rw [lastAbout_append, lastAbout_singleton]
    cases patch.about id <;> rfl

end Cdesktop.ToolApproval
