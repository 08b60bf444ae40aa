import Cdesktop.AcpRun
import Cdesktop.Trim

/-! How an ACP run ends: its signal, its log, and the reasons of the user. -/

namespace Cdesktop.Acp
open Codex (ApprovalStatus)
open RelayRefresh (trim)
open Trim
set_option autoImplicit true

def AcpEvent.byClient : AcpEvent → Bool
  | .user _ | .update _ | .requestPermission _ | .approvalRequested .. | .approvalResponse .. => true
  | .sessionStart _ | .error _ | .done _ => false

def AcpEvent.decision : AcpEvent → Option (String × ApprovalStatus)
  | .approvalResponse toolCallId status => some (toolCallId, status)
  | _ => none

def Answer.Agrees (answer : Answer) : Prop :=
  match answer.status with
  | .approved scope =>
    ∃ option ∈ answer.options, answer.response = .outcome (.selected option.optionId) ∧
      (option.kind = .allowOnce ∨ scope = .session ∧ option.kind = .allowAlways)
  | .denied _ =>
    answer.response = .outcome .cancelled ∨
      ∃ option ∈ answer.options, answer.response = .outcome (.selected option.optionId) ∧
        option.kind = .rejectOnce
  | .timedOut =>
    answer.response = .outcome .cancelled ∨ answer.response = .error .internalError
  | .pending => answer.response = .outcome .cancelled

def Prompt.Carried (prompt : Prompt) : Prop :=
  ∀ reason ∈ prompt.reasons, reason.toList <:+: prompt.text.toList

def World.lines (w : World) : List AcpEvent := w.log ++ w.logQueue

def World.told (w : World) : List String := w.prompts.flatMap (·.reasons)

def World.Ahead (w : World) (d : Done) : Prop :=
  d.recorded = d.lines.filter AcpEvent.byClient ∧ d.lines ++ [.done d.stopReason] <+: w.lines

/-- The run is over: it is reported once, with the log complete, and every reason that was heard is
told. -/
structure World.Reported (w : World) : Prop where
  once : ∃ result, w.signals = [result] ∧
    (result = .success → w.responded ∧ w.cancelled = false)
  logged : ∀ d ∈ w.dones, d.recorded <+: w.log.filter AcpEvent.byClient
  told : w.cancelled = false → w.heard <+: w.told
  decisions : w.log.filterMap AcpEvent.decision =
    w.answers.map fun answer => (answer.toolCallId, answer.status)
  agrees : ∀ answer ∈ w.answers, answer.Agrees

structure World.EndsRight (w : World) : Prop where
  ahead : ∀ d ∈ w.dones, w.Ahead d
  carried : ∀ prompt ∈ w.prompts, prompt.Carried
  silent : w.main ≠ .finished → w.signals = []
  reported : w.main = .finished → w.Reported

def World.forwarded (w : World) : Bool := w.events.isEmpty && w.hand.isNone

/-- The session is created, the forwarder is not behind when a prompt gets its response, nor the log
when the run ends; it ends with a response and uncancelled, and an approval finds its option. -/
def World.keepsUp (w : World) (event : Event) : Bool :=
  match w.main, event with
  | .manager, .manager ok => ok
  | .session, .session result => result.isSome
  | .awaiting, .result (.response _) => w.forwarded
  | .exiting, .exit => w.forwarded && w.logQueue.isEmpty && w.responded && !w.cancelled
  | _, .decided i (.ok (.approved scope)) =>
    match w.permissions[i]? with
    | some permission =>
      permission.stage ≠ .waiting || (chooseApproval scope permission.options).isSome
    | none => true
  | _, _ => true

def Main.reasons : Main → List String
  | .prompting prompt => prompt.reasons
  | _ => []

structure World.Logging (w : World) : Prop where
  silent : w.signals = []
  fifo : w.recorded = w.lines.filter AcpEvent.byClient ++ (w.hand.toList ++ w.events)
  client : ∀ event ∈ w.hand.toList ++ w.events, event.byClient
  decisions : w.recorded.filterMap AcpEvent.decision =
    w.answers.map fun answer => (answer.toolCallId, answer.status)
  agrees : ∀ answer ∈ w.answers, answer.Agrees
  ahead : ∀ d ∈ w.dones, w.Ahead d

structure World.Hearing (w : World) : Prop where
  tight : ∀ reason ∈ w.feedbackQueue, Tight reason
  carried : ∀ prompt ∈ w.prompts, prompt.Carried
  next : ∀ prompt, w.main = .prompting prompt → prompt.Carried
  reasons : w.cancelled = false → w.reasons = w.told ++ w.main.reasons ++ w.feedbackQueue
  heard : w.heard <+: w.reasons
  told : w.cancelled = false → w.main ≠ .draining → w.heard <+: w.told ++ w.main.reasons

theorem World.Logging.sendEvent (h : World.Logging w) (hclient : event.byClient)
    (hdecision : event.decision = none) : (w.sendEvent event).Logging := by
  constructor
  · exact h.silent
  · change w.recorded ++ [event] = w.lines.filter _ ++ (w.hand.toList ++ (w.events ++ [event]))
    rw [h.fifo, List.append_assoc, List.append_assoc]
  · intro other hmem
    change other ∈ w.hand.toList ++ (w.events ++ [event]) at hmem
    rw [← List.append_assoc] at hmem
    cases List.mem_append.mp hmem with
    | inl hmem => exact h.client other hmem
    | inr hmem => exact List.mem_singleton.mp hmem ▸ hclient
  · change (w.recorded ++ [event]).filterMap _ = _
    rw [List.filterMap_append, List.filterMap_cons_none hdecision, List.filterMap_nil,
      List.append_nil]
    exact h.decisions
  · exact h.agrees
  · exact h.ahead

variable {w w' : World}

theorem World.Ahead.mono (h : w.Ahead d) (hlines : w.lines <+: w'.lines) :
    w'.Ahead d :=
  ⟨h.1, h.2.trans hlines⟩

theorem World.sendLine_lines (event : AcpEvent) (w : World) :
    (w.sendLine event).lines = w.lines ++ [event] :=
  (List.append_assoc _ _ _).symm

theorem World.Logging.sendLine (h : World.Logging w) (hline : event.byClient = false) :
    (w.sendLine event).Logging := by
  have hlines := w.sendLine_lines event
  constructor
  · exact h.silent
  · rw [hlines, List.filter_append, List.filter_cons_of_neg (Bool.eq_false_iff.mp hline),
      List.filter_nil, List.append_nil]
    exact h.fifo
  · exact h.client
  · exact h.decisions
  · exact h.agrees
  · intro d hd
    exact (h.ahead d hd).mono (hlines ▸ List.prefix_append _ _)

theorem World.Logging.answer (h : World.Logging w) (i : Nat) (permission : Permission)
    (hagrees : (Answer.mk permission.toolCallId permission.options status response).Agrees) :
    (w.answer i permission status response true).Logging := by
  constructor
  · exact h.silent
  · change w.recorded ++ [_] = w.lines.filter _ ++ (w.hand.toList ++ (w.events ++ [_]))
    rw [h.fifo, List.append_assoc, List.append_assoc]
  · intro other hmem
    change other ∈ w.hand.toList ++ (w.events ++ [_]) at hmem
    rw [← List.append_assoc] at hmem
    cases List.mem_append.mp hmem with
    | inl hmem => exact h.client other hmem
    | inr hmem => exact List.mem_singleton.mp hmem ▸ rfl
  · change (w.recorded ++ [_]).filterMap _ = (w.answers ++ [_]).map _
    rw [List.filterMap_append, List.map_append, h.decisions]
    rfl
  · intro answer hmem
    cases List.mem_append.mp hmem with
    | inl hmem => exact h.agrees answer hmem
    | inr hmem => exact List.mem_singleton.mp hmem ▸ hagrees
  · exact h.ahead

theorem World.Logging.respond (h : World.Logging w) (i : Nat) (permission : Permission)
    (response : Response) : (w.respond i permission response).Logging :=
  ⟨h.silent, h.fifo, h.client, h.decisions, h.agrees, h.ahead⟩

theorem World.Logging.handleApprovalError (h : World.Logging w) (i : Nat)
    (permission : Permission) (error : ExecutorApprovalError) :
    (w.handleApprovalError i permission error).Logging := by
  cases error with
  | cancelled => exact h.respond i permission _
  | other => exact h.answer i permission (.inr rfl)

theorem findKind_some (h : findKind kind options = some option) :
    option ∈ options ∧ option.kind = kind := by
  unfold findKind at h
  apply And.intro (List.mem_of_find?_eq_some h)
  simpa using List.find?_some h

theorem chooseApproval_some (h : chooseApproval scope options = some option) :
    option ∈ options ∧
      (option.kind = .allowOnce ∨ scope = .session ∧ option.kind = .allowAlways) := by
  cases scope with
  | once =>
    have hfound := findKind_some h
    exact ⟨hfound.1, .inl hfound.2⟩
  | session =>
    cases Option.or_eq_some_iff.mp h with
    | inl halways =>
      have hfound := findKind_some halways
      exact ⟨hfound.1, .inr ⟨rfl, hfound.2⟩⟩
    | inr honce =>
      have hfound := findKind_some honce.2
      exact ⟨hfound.1, .inl hfound.2⟩

theorem chooseDenial_agrees (toolCallId : String) (options : List PermissionOption)
    (reason : Option String) :
    (Answer.mk toolCallId options (.denied reason) (.outcome (chooseDenial options))).Agrees := by
  unfold chooseDenial
  cases hfind : findKind .rejectOnce options with
  | none => exact .inl rfl
  | some option =>
    have hfound := findKind_some hfind
    exact .inr ⟨option, hfound.1, rfl, hfound.2⟩

theorem World.Logging.enqueueFeedback (h : World.Logging w) (message : String) :
    (w.enqueueFeedback message).Logging := by
  unfold World.enqueueFeedback
  dsimp only
  split
  · exact h
  · exact ⟨h.silent, h.fifo, h.client, h.decisions, h.agrees, h.ahead⟩

theorem World.Logging.decided {result : Except ExecutorApprovalError ApprovalStatus}
    (h : World.Logging w) (i : Nat) (permission : Permission)
    (hok : ∀ scope, result = .ok (.approved scope) →
      (chooseApproval scope permission.options).isSome) :
    (w.decided i permission result).Logging := by
  cases result with
  | error error => exact h.handleApprovalError i permission error
  | ok status =>
    cases status with
    | approved scope =>
      obtain ⟨option, hoption⟩ := Option.isSome_iff_exists.mp (hok scope rfl)
      have hfound := chooseApproval_some hoption
      unfold World.decided
      dsimp only
      rw [hoption]
      exact h.answer i permission ⟨option, hfound.1, rfl, hfound.2⟩
    | denied reason =>
      cases reason with
      | none => exact h.answer i permission (chooseDenial_agrees _ _ none)
      | some feedback =>
        exact (h.enqueueFeedback feedback).answer i permission (chooseDenial_agrees _ _ _)
    | timedOut => exact h.answer i permission (.inl rfl)
    | pending => exact h.answer i permission rfl

theorem World.Logging.take (h : World.Logging w) : w.take.Logging := by
  unfold World.take
  split
  · next event events hhand hevents =>
    have hfifo := h.fifo
    have hclient := h.client
    rw [hhand, hevents] at hfifo hclient
    exact ⟨h.silent, hfifo, hclient, h.decisions, h.agrees, h.ahead⟩
  · exact h

theorem World.Logging.forward (h : World.Logging w) : w.forward.Logging := by
  unfold World.forward
  split
  · next event hhand =>
    have hfifo := h.fifo
    have hclient := h.client
    rw [hhand] at hfifo hclient
    have hlines := w.sendLine_lines event
    have hevent : event.byClient := hclient event List.mem_cons_self
    constructor
    · exact h.silent
    · change w.recorded = (w.sendLine event).lines.filter _ ++ ([] ++ w.events)
      rw [hlines, List.filter_append, List.filter_cons_of_pos hevent, hfifo, List.append_assoc]
      rfl
    · intro other hmem
      exact hclient other (List.mem_cons_of_mem _ hmem)
    · exact h.decisions
    · exact h.agrees
    · intro d hd
      have hle : w.lines <+: (w.sendLine event).lines := hlines ▸ List.prefix_append _ _
      exact (h.ahead d hd).mono hle
  · exact h

theorem World.write_lines (w : World) : w.write.lines = w.lines := by
  unfold World.write
  split
  · next line lines hqueue =>
    unfold World.lines
    rw [hqueue]
    exact List.append_assoc _ _ _
  · rfl

namespace World

theorem write_eq (w : World) :
    ∃ logQueue log, w.write = { w with logQueue := logQueue, log := log } := by
  unfold write
  split
  · exact ⟨_, _, rfl⟩
  · exact ⟨w.logQueue, w.log, rfl⟩

theorem Logging.write (h : Logging w) : w.write.Logging := by
  have hlines := w.write_lines
  obtain ⟨logQueue, log, heq⟩ := w.write_eq
  rw [heq] at hlines ⊢
  constructor
  · exact h.silent
  · rw [hlines]
    exact h.fifo
  · exact h.client
  · exact h.decisions
  · exact h.agrees
  · intro d hd
    exact ⟨(h.ahead d hd).1, hlines ▸ (h.ahead d hd).2⟩

theorem Logging.result (h : Logging w) (result : PromptResult)
    (hok : ∀ stopReason, result = .response stopReason → w.forwarded) :
    (w.result result).Logging := by
  cases result with
  | response stopReason =>
    have hforwarded := hok stopReason rfl
    unfold forwarded at hforwarded
    rw [Bool.and_eq_true, List.isEmpty_iff, Option.isNone_iff_eq_none] at hforwarded
    have hrecorded := h.fifo
    rw [hforwarded.1, hforwarded.2] at hrecorded
    have hsent : (w.sendLine (.done stopReason)).Logging := h.sendLine rfl
    constructor
    · exact hsent.silent
    · exact hsent.fifo
    · exact hsent.client
    · exact hsent.decisions
    · exact hsent.agrees
    · intro d hd
      cases List.mem_append.mp hd with
      | inl hd => exact hsent.ahead d hd
      | inr hd =>
        rw [List.mem_singleton.mp hd]
        apply And.intro (hrecorded.trans (List.append_nil _))
        exact (w.sendLine_lines (.done stopReason)) ▸ List.prefix_rfl
  | failed error =>
    have hsame : { w with main := .draining, heard := w.reasons }.Logging :=
      ⟨h.silent, h.fifo, h.client, h.decisions, h.agrees, h.ahead⟩
    unfold World.result
    dsimp only
    split
    · exact hsame
    · exact hsame.sendLine rfl

theorem Hearing.same (h : w.Hearing)
    (hsame : (w'.feedbackQueue, w'.prompts, w'.main, w'.cancelled, w'.reasons, w'.heard) =
      (w.feedbackQueue, w.prompts, w.main, w.cancelled, w.reasons, w.heard)) : w'.Hearing := by
  simp only [Prod.mk.injEq] at hsame
  obtain ⟨hqueue, hprompts, hmain, hcancelled, hreasons, hheard⟩ := hsame
  have htold : w'.told = w.told := congrArg (·.flatMap (·.reasons)) hprompts
  constructor
  · rw [hqueue]
    exact h.tight
  · rw [hprompts]
    exact h.carried
  · rw [hmain]
    exact h.next
  · rw [hcancelled, hreasons, htold, hmain, hqueue]
    exact h.reasons
  · rw [hheard, hreasons]
    exact h.heard
  · rw [hcancelled, hmain, hheard, htold]
    exact h.told

theorem Hearing.enqueueFeedback (h : Hearing w) (message : String) :
    (w.enqueueFeedback message).Hearing := by
  unfold World.enqueueFeedback
  dsimp only
  split
  · exact h
  · next hblank =>
    have htight := tight_trim (Bool.eq_false_iff.mpr hblank)
    constructor
    · intro reason hmem
      cases List.mem_append.mp hmem with
      | inl hmem => exact h.tight reason hmem
      | inr hmem => exact List.mem_singleton.mp hmem ▸ htight
    · exact h.carried
    · exact h.next
    · intro hcancelled
      change w.reasons ++ _ = w.told ++ w.main.reasons ++ (w.feedbackQueue ++ _)
      rw [h.reasons hcancelled, List.append_assoc (w.told ++ w.main.reasons)]
    · exact h.heard.trans (List.prefix_append _ _)
    · exact h.told

theorem Hearing.answer (h : Hearing w) (i : Nat) (permission : Permission)
    (status : ApprovalStatus) (response : Response) (record : Bool) :
    (w.answer i permission status response record).Hearing := by
  unfold World.answer
  dsimp only
  split <;> exact h.same rfl

theorem Hearing.handleApprovalError (h : Hearing w) (i : Nat)
    (permission : Permission) (error : ExecutorApprovalError) :
    (w.handleApprovalError i permission error).Hearing := by
  cases error with
  | cancelled => exact h.same rfl
  | other => exact h.answer i permission _ _ _

theorem Hearing.decided (h : Hearing w) (i : Nat) (permission : Permission)
    (result : Except ExecutorApprovalError ApprovalStatus) :
    (w.decided i permission result).Hearing := by
  cases result with
  | error error => exact h.handleApprovalError i permission error
  | ok status =>
    cases status with
    | approved scope =>
      unfold World.decided
      dsimp only
      split <;> exact h.answer i permission _ _ _
    | denied reason =>
      cases reason with
      | none => exact h.answer i permission _ _ _
      | some feedback => exact (h.enqueueFeedback feedback).answer i permission _ _ _
    | timedOut | pending => exact h.answer i permission _ _ _

theorem take_eq (w : World) : ∃ events hand sessionCancels,
    w.take = { w with events := events, hand := hand, sessionCancels := sessionCancels } := by
  unfold take
  split
  · exact ⟨_, _, _, rfl⟩
  · exact ⟨w.events, w.hand, w.sessionCancels, rfl⟩

theorem forward_eq (w : World) :
    ∃ logQueue hand, w.forward = { w with logQueue := logQueue, hand := hand } := by
  unfold forward
  split
  · exact ⟨_, _, rfl⟩
  · exact ⟨w.logQueue, w.hand, rfl⟩

end World

theorem World.result_eq (result : PromptResult) (w : World) :
    ∃ logQueue responded dones, w.result result =
      { w with
        main := .draining, heard := w.reasons, logQueue := logQueue, responded := responded
        dones := dones } := by
  unfold World.result
  cases result with
  | response stopReason => exact ⟨_, _, _, rfl⟩
  | failed error =>
    dsimp only
    split
    · exact ⟨w.logQueue, w.responded, w.dones, rfl⟩
    · exact ⟨_, w.responded, w.dones, rfl⟩

theorem World.drain_eq (w : World) : ∃ main, main ≠ .finished ∧
    w.drain = { w with feedbackQueue := [], main := main } := by
  by_cases hblank : (trim ("\n".intercalate w.feedbackQueue)).isEmpty
  · apply Exists.intro .exiting
    apply And.intro nofun
    unfold World.drain
    dsimp only
    rw [if_pos hblank]
  · apply Exists.intro (.prompting ⟨trim ("\n".intercalate w.feedbackQueue), w.feedbackQueue⟩)
    apply And.intro nofun
    unfold World.drain
    dsimp only
    rw [if_neg hblank]

theorem World.Hearing.result (h : World.Hearing w) (hmain : w.main = .awaiting)
    (result : PromptResult) : (w.result result).Hearing := by
  obtain ⟨logQueue, responded, dones, heq⟩ := w.result_eq result
  have hreasons := h.reasons
  rw [hmain] at hreasons
  rw [heq]
  constructor
  · exact h.tight
  · exact h.carried
  · nofun
  · exact hreasons
  · exact List.prefix_rfl
  · intro _ hdraining
    exact absurd rfl hdraining

theorem World.Hearing.drain (h : World.Hearing w) (hmain : w.main = .draining) :
    w.drain.Hearing := by
  have hreasons := h.reasons
  rw [hmain] at hreasons
  unfold World.drain
  dsimp only
  cases hqueue : w.feedbackQueue with
  | nil =>
    rw [hqueue] at hreasons
    constructor
    · nofun
    · exact h.carried
    · nofun
    · exact hreasons
    · exact h.heard
    · intro hcancelled _
      have htold := (hreasons hcancelled).trans (List.append_nil _)
      exact htold ▸ h.heard
  | cons reason reasons =>
    have htight := h.tight
    rw [hqueue] at htight hreasons
    have hjoin := intercalate_tight "\n" reason reasons (htight reason List.mem_cons_self)
      fun t ht => htight t (List.mem_cons_of_mem _ ht)
    rw [hjoin.1.trim_eq, hjoin.1.ne_empty]
    have hall : w.cancelled = false → w.reasons = w.told ++ reason :: reasons := by
      intro hcancelled
      rw [hreasons hcancelled]
      exact congrArg (· ++ _) (List.append_nil _)
    constructor
    · nofun
    · exact h.carried
    · intro prompt heq
      cases heq
      exact hjoin.2
    · intro hcancelled
      exact (hall hcancelled).trans (List.append_nil _).symm
    · exact h.heard
    · intro hcancelled _
      have htold := hall hcancelled
      exact htold ▸ h.heard

theorem World.Hearing.prompt {prompt : Prompt} (h : World.Hearing w) (hmain : w.main = .prompting prompt) :
    { w with main := .awaiting, prompts := w.prompts ++ [prompt], responded := false }.Hearing := by
  have htold : (w.prompts ++ [prompt]).flatMap (·.reasons) = w.told ++ prompt.reasons := by
    rw [List.flatMap_append, List.flatMap_singleton]
    rfl
  have hreasons := h.reasons
  have hheard := h.told
  rw [hmain] at hreasons hheard
  constructor
  · exact h.tight
  · intro other hmem
    cases List.mem_append.mp hmem with
    | inl hmem => exact h.carried other hmem
    | inr hmem => exact List.mem_singleton.mp hmem ▸ h.next prompt hmain
  · nofun
  · intro hcancelled
    rw [hreasons hcancelled]
    exact congrArg (· ++ _) (htold.symm.trans (List.append_nil _).symm)
  · exact h.heard
  · intro hcancelled _
    have hsent := hheard hcancelled nofun
    exact (htold.symm.trans (List.append_nil _).symm) ▸ hsent

theorem World.Hearing.move {main : Main} (h : World.Hearing w) (hold : w.main.reasons = [])
    (hdraining : w.main ≠ .draining) (hnew : main.reasons = []) :
    { w with main := main }.Hearing := by
  constructor
  · exact h.tight
  · exact h.carried
  · intro prompt hprompt reason hmem
    change main = .prompting prompt at hprompt
    rw [hprompt] at hnew
    change prompt.reasons = [] at hnew
    rw [hnew] at hmem
    cases hmem
  · intro hcancelled
    change w.reasons = w.told ++ main.reasons ++ w.feedbackQueue
    rw [hnew, ← hold]
    exact h.reasons hcancelled
  · exact h.heard
  · intro hcancelled _
    change w.heard <+: w.told ++ main.reasons
    rw [hnew, ← hold]
    exact h.told hcancelled hdraining

theorem World.Hearing.cancelled {main : Main} (h : World.Hearing w) (hcancelled : w.cancelled)
    (hmain : ∀ prompt, main ≠ .prompting prompt) : { w with main := main }.Hearing := by
  have hnever {P : Prop} (hrunning : w.cancelled = false) : P := by
    rw [hcancelled] at hrunning
    cases hrunning
  exact ⟨h.tight, h.carried, fun prompt heq => absurd heq (hmain prompt), hnever, h.heard,
    fun hrunning => hnever hrunning⟩

structure World.Kept (w : World) : Prop where
  logging : w.main ≠ .finished → w.Logging
  hearing : w.main ≠ .finished → w.Hearing
  right : w.EndsRight

theorem World.Logging.kept (h : World.Logging w) (hhearing : w.Hearing)
    (hmain : w.main ≠ .finished) : w.Kept := by
  apply World.Kept.mk (fun _ => h) (fun _ => hhearing)
  constructor
  · exact h.ahead
  · exact hhearing.carried
  · exact fun _ => h.silent
  · exact fun heq => absurd heq hmain

theorem World.Logging.frame (h : w.Logging) (hsame : (w'.signals, w'.recorded, w'.lines, w'.hand,
      w'.events, w'.answers, w'.dones) =
    (w.signals, w.recorded, w.lines, w.hand, w.events, w.answers, w.dones)) : w'.Logging := by
  simp only [Prod.mk.injEq] at hsame
  obtain ⟨hsignals, hrecorded, hlines, hhand, hevents, hanswers, hdones⟩ := hsame
  constructor
  · exact hsignals.trans h.silent
  · rw [hrecorded, hlines, hhand, hevents]
    exact h.fifo
  · rw [hhand, hevents]
    exact h.client
  · rw [hrecorded, hanswers]
    exact h.decisions
  · rw [hanswers]
    exact h.agrees
  · rw [hdones]
    intro d hd
    exact ⟨(h.ahead d hd).1, hlines ▸ (h.ahead d hd).2⟩

theorem filterMap_byClient (lines : List AcpEvent) :
    (lines.filter AcpEvent.byClient).filterMap AcpEvent.decision =
      lines.filterMap AcpEvent.decision := by
  induction lines with
  | nil => rfl
  | cons line lines ih =>
    cases line with
    | sessionStart | error | done => exact ih
    | user | update | requestPermission | approvalRequested => exact ih
    | approvalResponse toolCallId status => exact congrArg (_ :: ·) ih

namespace World

theorem Logging.exit (h : Logging w) (hhearing : w.Hearing) (hmain : w.main = .exiting)
    (hok : w.keepsUp .exit) :
    { w with
      main := .finished, signals := w.signals ++ [Codex.ExecutorExitResult.success]
      sessionCancels := w.sessionCancels + 1 }.Kept := by
  unfold keepsUp at hok
  rw [hmain] at hok
  simp only [forwarded, Bool.and_eq_true, List.isEmpty_iff, Option.isNone_iff_eq_none,
    Bool.not_eq_true'] at hok
  obtain ⟨⟨⟨⟨hevents, hhand⟩, hqueue⟩, hresponded⟩, hcancelled⟩ := hok
  have hlines : w.lines = w.log := by
    unfold lines
    rw [hqueue, List.append_nil]
  have hrecorded : w.recorded = w.log.filter AcpEvent.byClient := by
    have hfifo := h.fifo
    rw [hevents, hhand, hlines] at hfifo
    exact hfifo.trans (List.append_nil _)
  apply Kept.mk (fun hne => absurd rfl hne) (fun hne => absurd rfl hne)
  constructor
  · exact h.ahead
  · exact hhearing.carried
  · exact fun hne => absurd rfl hne
  · intro _
    constructor
    · apply Exists.intro .success
      rw [h.silent]
      exact ⟨rfl, fun _ => ⟨hresponded, hcancelled⟩⟩
    · intro d hd
      obtain ⟨hahead, hplaced⟩ := h.ahead d hd
      rw [hlines] at hplaced
      rw [hahead]
      exact ((List.prefix_append _ _).trans hplaced).filter _
    · intro _
      have htold := hhearing.told hcancelled (by rw [hmain]; nofun)
      rw [hmain] at htold
      exact (List.append_nil w.told) ▸ htold
    · have hdecisions := h.decisions
      rw [hrecorded, filterMap_byClient] at hdecisions
      exact hdecisions
    · exact h.agrees

theorem Kept.proceed (h : Kept w) (hmain : w.main ≠ .finished)
    (hok : w.keepsUp event) : (w.proceed settings event).Kept := by
  have hlogging := h.logging hmain
  have hhearing := h.hearing hmain
  unfold keepsUp at hok
  unfold World.proceed
  split
  · next hat =>
    have hmoved : { w with main := .session }.Hearing :=
      hhearing.move (by rw [hat]; rfl) (by rw [hat]; nofun) rfl
    have hsent : (w.sendEvent (.user settings.prompt)).Logging := hlogging.sendEvent rfl rfl
    apply Logging.kept
    · exact hsent.frame rfl
    · exact hmoved.same rfl
    · nofun
  · next hat =>
    rw [hat] at hok
    cases hok
  · next displayId text hat =>
    have hmoved : { w with main := .prompting ⟨text, []⟩ }.Hearing :=
      hhearing.move (by rw [hat]; rfl) (by rw [hat]; nofun) rfl
    have hsent : (w.sendLine (.sessionStart displayId)).Logging := hlogging.sendLine rfl
    apply Logging.kept
    · exact hsent.frame rfl
    · exact hmoved.same rfl
    · nofun
  · next hat =>
    rw [hat] at hok
    cases hok
  · next prompt hat =>
    split
    · next hcancelled =>
      apply Logging.kept
      · exact hlogging.frame rfl
      · exact hhearing.cancelled hcancelled nofun
      · nofun
    · apply Logging.kept
      · exact hlogging.frame rfl
      · exact hhearing.prompt hat
      · nofun
  · next result hat =>
    rw [hat] at hok
    obtain ⟨logQueue, responded, dones, heq⟩ := w.result_eq result
    apply Logging.kept
    · apply hlogging.result
      intro stopReason hresult
      rw [hresult] at hok
      exact hok
    · exact hhearing.result hat result
    · rw [heq]
      nofun
  · next hat =>
    split
    · next hcancelled =>
      apply Logging.kept
      · exact hlogging.frame rfl
      · exact hhearing.cancelled hcancelled nofun
      · nofun
    · exact h
  · next hat =>
    obtain ⟨main, hmain, heq⟩ := w.drain_eq
    apply Logging.kept
    · rw [heq]
      exact hlogging.frame rfl
    · exact hhearing.drain hat
    · rw [heq]
      exact hmain
  · next hat =>
    apply hlogging.exit hhearing hat
    unfold keepsUp
    exact hok
  · exact h

theorem Kept.created (h : Kept w) (hmain : w.main ≠ .finished) (i : Nat)
    (permission : Permission) (result : Except ExecutorApprovalError String) :
    (w.created i permission result).Kept := by
  have hlogging := h.logging hmain
  have hhearing := h.hearing hmain
  cases result with
  | ok approvalId =>
    have hsent : (w.sendEvent (.approvalRequested permission.toolCallId approvalId)).Logging :=
      hlogging.sendEvent rfl rfl
    apply Logging.kept
    · exact hsent.frame rfl
    · exact hhearing.same rfl
    · exact hmain
  | error error =>
    apply (hlogging.handleApprovalError i permission error).kept
    · exact hhearing.handleApprovalError i permission error
    · cases error <;> exact hmain

theorem answer_main (i : Nat) (permission : Permission) (status : ApprovalStatus)
    (response : Response) (record : Bool) (w : World) :
    (w.answer i permission status response record).main = w.main := by
  unfold answer
  dsimp only
  split <;> rfl

theorem decided_main (i : Nat) (permission : Permission)
    (result : Except ExecutorApprovalError ApprovalStatus) (w : World) :
    (w.decided i permission result).main = w.main := by
  unfold decided
  split
  · next error => cases error <;> rfl
  · split <;> exact answer_main _ _ _ _ _ w
  · next reason =>
    rw [answer_main]
    split
    · unfold enqueueFeedback
      dsimp only
      split <;> rfl
    · rfl
  · exact answer_main _ _ _ _ _ w
  · exact answer_main _ _ _ _ _ w

theorem Kept.decided {result : Except ExecutorApprovalError ApprovalStatus}
    (h : Kept w) (hmain : w.main ≠ .finished) (i : Nat) (permission : Permission)
    (hok : ∀ scope, result = .ok (.approved scope) →
      (chooseApproval scope permission.options).isSome) :
    (w.decided i permission result).Kept := by
  apply ((h.logging hmain).decided i permission hok).kept
  · exact (h.hearing hmain).decided i permission result
  · rw [decided_main]
    exact hmain

theorem keepsUp_decided (hok : w.keepsUp (.decided i (.ok (.approved scope))))
    (hpermission : w.permissions[i]? = some permission) (hstage : permission.stage = .waiting) :
    (chooseApproval scope permission.options).isSome := by
  unfold keepsUp at hok
  split at hok
  · next heq => cases heq
  · next heq => cases heq
  · next heq => cases heq
  · next heq => cases heq
  · next heq =>
    cases heq
    rw [hpermission] at hok
    simpa [hstage] using hok
  · next hnone _ _ _ _ => exact (hnone i scope rfl).elim

theorem Kept.step (h : Kept w) (hok : w.keepsUp event) :
    (w.step settings event).Kept := by
  unfold World.step
  split
  · exact h
  · next hmain =>
    have hlogging := h.logging hmain
    have hhearing := h.hearing hmain
    cases event with
    | take =>
      dsimp only
      split
      · obtain ⟨events, hand, sessionCancels, heq⟩ := w.take_eq
        apply hlogging.take.kept
        · rw [heq]
          exact hhearing.same rfl
        · rw [heq]
          exact hmain
      · exact h
    | forward =>
      dsimp only
      split
      · obtain ⟨logQueue, hand, heq⟩ := w.forward_eq
        apply hlogging.forward.kept
        · rw [heq]
          exact hhearing.same rfl
        · rw [heq]
          exact hmain
      · exact h
    | write =>
      obtain ⟨logQueue, log, heq⟩ := w.write_eq
      apply hlogging.write.kept
      · rw [heq]
        exact hhearing.same rfl
      · rw [heq]
        exact hmain
    | update text =>
      dsimp only
      split
      · apply Logging.kept
        · exact hlogging.sendEvent rfl rfl
        · exact hhearing.same rfl
        · exact hmain
      · exact h
    | requestPermission toolCallId options =>
      dsimp only
      split
      · have hsent : (w.sendEvent (.requestPermission toolCallId)).Logging :=
          hlogging.sendEvent rfl rfl
        apply Logging.kept
        · exact hsent.frame rfl
        · exact hhearing.same rfl
        · exact hmain
      · exact h
    | created i result =>
      dsimp only
      split
      · next permission _ =>
        split
        · exact h.created hmain i permission result
        · exact h
      · exact h
    | decided i result =>
      dsimp only
      split
      · next permission hpermission =>
        split
        · next hstage =>
          apply h.decided hmain i permission
          intro scope hresult
          rw [hresult] at hok
          exact keepsUp_decided hok hpermission hstage
        · exact h
      · exact h
    | cancel =>
      apply Logging.kept
      · exact hlogging.frame rfl
      · exact ⟨hhearing.tight, hhearing.carried, hhearing.next, nofun, hhearing.heard, nofun⟩
      · exact hmain
    | manager | session | prompt | result | abort | drain | exit => exact h.proceed hmain hok

theorem new_kept : new.Kept := by
  apply Logging.kept
  · constructor
    · rfl
    · rfl
    · nofun
    · rfl
    · nofun
    · nofun
  · constructor
    · nofun
    · nofun
    · nofun
    · exact fun _ => rfl
    · exact List.nil_prefix
    · exact fun _ _ => List.nil_prefix
  · nofun

end World

/-- A run that keeps up ends with one exit signal that is true, after a log that has everything in
its order, and no reason of the user is lost. -/
theorem run_ends_right (settings : Settings) (events : List Event)
    (h : Run.Each (World.step settings) (fun w event => w.keepsUp event = true) World.new events) :
    (Run.run (World.step settings) World.new events).EndsRight := by
  have hkept : (Run.run (World.step settings) World.new events).Kept := by
    apply Run.Each.preserves _ World.new_kept h
    intro w event hw hok
    exact hw.step hok
  exact hkept.right

def askingSettings : Settings := { prompt := "Hello", approvals := true }

def asking (options : List PermissionOption) : List Event :=
  [.manager true, .session (some ("ui", "Hello")), .take, .forward, .prompt,
    .requestPermission "tool" options, .created 0 (.ok "approval"), .take, .forward, .take, .forward]

def denied : List Event :=
  asking [⟨"reject", .rejectOnce⟩] ++
    [.decided 0 (.ok (.denied (some " Use the other file\n"))), .take, .forward,
      .result (.response "cancelled"), .drain, .prompt, .update "It is done.", .take, .forward,
      .result (.response "end_turn"), .drain]

def finish : List Event := List.replicate 9 .write ++ [.exit]

theorem run_ends_right_sample :
    (Run.run (World.step askingSettings) World.new (denied ++ finish)).EndsRight := by
  apply run_ends_right
  decide +kernel

theorem World.EndsRight.success (h : w.EndsRight) (hmain : w.main = .finished)
    (hsignals : w.signals = [.success]) : w.responded ∧ w.cancelled = false := by
  obtain ⟨result, hresult, hsuccess⟩ := (h.reported hmain).once
  rw [hsignals] at hresult
  exact hsuccess (List.singleton_inj.mp hresult).symm

theorem World.EndsRight.signalled (h : w.EndsRight) (hmain : w.main = .finished) :
    w.signals ≠ [] := by
  obtain ⟨result, hresult, _⟩ := (h.reported hmain).once
  rw [hresult]
  nofun

theorem World.EndsRight.placed (h : w.EndsRight) :
    ∀ d ∈ w.dones, d.recorded = d.lines.filter AcpEvent.byClient :=
  fun d hd => (h.ahead d hd).1

/-- Without a session there is no exit signal; a prompt that failed and a cancelled run are reported
as a success; the line of a response overtakes what was recorded before it; and an approval that
finds no option is in no response. -/
theorem run_not_ends_right :
    ¬(Run.run (World.step askingSettings) World.new [.manager false]).EndsRight ∧
    ¬(Run.run (World.step askingSettings) World.new [.manager true, .session none]).EndsRight ∧
    ¬(Run.run (World.step askingSettings) World.new
      ((asking []).take 5 ++ [.result (.failed ⟨false, none, "refused"⟩), .drain, .exit])).EndsRight ∧
    ¬(Run.run (World.step askingSettings) World.new
      ((asking []).take 5 ++ [.cancel, .abort, .exit])).EndsRight ∧
    ¬(Run.run (World.step askingSettings) World.new
      ((asking []).take 5 ++ [.update "text", .result (.response "end_turn")])).EndsRight ∧
    ¬(Run.run (World.step askingSettings) World.new
      (asking [] ++ [.decided 0 (.ok (.approved .once)), .result (.response "end_turn"), .drain] ++
        finish)).EndsRight := by
  apply And.intro
  · intro h
    exact h.signalled (by decide +kernel) (by decide +kernel)
  apply And.intro
  · intro h
    exact h.signalled (by decide +kernel) (by decide +kernel)
  apply And.intro
  · intro h
    exact absurd (h.success (by decide +kernel) (by decide +kernel)) (by decide +kernel)
  apply And.intro
  · intro h
    exact absurd (h.success (by decide +kernel) (by decide +kernel)) (by decide +kernel)
  apply And.intro
  · intro h
    exact absurd h.placed (by decide +kernel)
  · intro h
    exact absurd (h.reported (by decide +kernel)).decisions (by decide +kernel)

end Cdesktop.Acp
