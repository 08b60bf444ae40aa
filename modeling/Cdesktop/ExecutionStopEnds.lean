import Cdesktop.ExecutionStopSound

/-! The seal that the recorder leaves, and the request that the monitor's write follows. -/

namespace Cdesktop.ExecutionStop
open Table (Reply)
open ExecutionLog (CaptureOutcome)
set_option autoImplicit true

def Monitor.drained : Monitor → Bool
  | .captured _ _ | .deciding _ _ | .following _ _ | .releasing | .finished => true
  | _ => false

structure World.Sealing (w : World) : Prop where
  absent : w.monitor = .absent → w.recorder = .absent
  drained : w.monitor.drained = true → ∃ captured, w.recorder = .ended captured
  complete : w.recorder = .ended (.outcome .complete) → w.owner = some (some .complete)
  noted : (w.recorder = .stopping ∨ ∃ captured, w.recorder = .ended captured) →
    (∃ outcome, w.owner = some (some outcome)) ∨ .sealFailed ∈ w.acts

theorem World.Sealing.same {w w' : World} (h : w.Sealing) (hmonitor : w'.monitor = w.monitor)
    (hrecorder : w'.recorder = w.recorder) (howner : w'.owner = w.owner)
    (hacts : .sealFailed ∈ w.acts → .sealFailed ∈ w'.acts) : w'.Sealing where
  absent := by rw [hmonitor, hrecorder]; exact h.absent
  drained := by rw [hmonitor, hrecorder]; exact h.drained
  complete := by rw [hrecorder, howner]; exact h.complete
  noted := by
    rw [hrecorder, howner]
    exact fun hended => (h.noted hended).imp id hacts

theorem World.Sealing.grows {w w' : World} (h : w.Sealing) (hthere : w'.monitor ≠ .absent)
    (hdrained : w'.monitor.drained = true → ∃ captured, w.recorder = .ended captured)
    (hrecorder : w'.recorder = w.recorder) (howner : w'.owner = w.owner)
    (hacts : .sealFailed ∈ w.acts → .sealFailed ∈ w'.acts) : w'.Sealing where
  absent habsent := absurd habsent hthere
  drained := by rw [hrecorder]; exact hdrained
  complete := by rw [hrecorder, howner]; exact h.complete
  noted := by
    rw [hrecorder, howner]
    exact fun hended => (h.noted hended).imp id hacts

structure World.Told (w : World) : Prop where
  request : w.requestedStop = firstRequest w.acts
  flag : ∀ outcome failed captured, w.monitor = .captured outcome failed →
    w.recorder = .ended captured → failed = decide (captured ≠ .outcome .complete)
  decided : ∀ outcome allow captured, w.monitor = .deciding outcome allow →
    w.recorder = .ended captured →
    (∃ seen, outcome =
      publishedOutcome seen (decide (captured ≠ .outcome .complete)) w.requestedStop) ∧
    (w.requestedStop ≠ none → allow = false)
  silent : w.monitor.before = true → .nextAction ∉ w.acts ∧ ∀ row, .left .monitor row ∉ w.acts
  ended : ∀ row, .left .monitor row ∈ w.acts → ∃ captured, w.recorder = .ended captured
  told : ∀ before row after, w.acts = before ++ .left .monitor row :: after →
    w.row = some row ∧ row.terminal ∧ ∀ status, firstRequest before = some status →
      (w.recorder = .ended (.outcome .complete) → row.status = status) ∧
      .nextAction ∉ w.acts ∧ ∀ exitCode, w.monitor ≠ .following true exitCode

theorem split_append {l more before after : List β} (h : l ++ more = before ++ x :: after)
    (hx : x ∉ more) : ∃ after', l = before ++ x :: after' := by
  obtain ⟨l', hbefore, hmore⟩ | ⟨l', hl, hafter⟩ := List.append_eq_append_iff.mp h
  · apply absurd _ hx
    rw [hmore]
    exact List.mem_append_right _ List.mem_cons_self
  · cases l' with
    | nil =>
      apply absurd _ hx
      rw [List.nil_append] at hafter
      rw [← hafter]
      exact List.mem_cons_self
    | cons y l' =>
      obtain ⟨rfl, -⟩ := List.cons.inj hafter
      exact ⟨l', hl⟩

theorem World.Told.carry {w w' : World} (h : w.Told) (hsealing : w.Sealing)
    (hacts : w'.acts = w.acts ++ more)
    (hmore : .nextAction ∉ more ∧ ∀ row, .left .monitor row ∉ more)
    (hrequest : w'.requestedStop = firstRequest w'.acts) (hlasts : World.Lasts w w')
    (hmonitor : w'.monitor = w.monitor)
    (hrecorder : ∀ captured, w.recorder = .ended captured → w'.recorder = .ended captured)
    (hlocked : ∀ outcome allow, w.monitor = .deciding outcome allow →
      w'.requestedStop = w.requestedStop) : w'.Told := by
  have hback : ∀ captured, w.monitor.drained = true → w'.recorder = .ended captured →
      w.recorder = .ended captured := by
    intro captured hdrained hcaptured
    obtain ⟨captured', hcaptured'⟩ := hsealing.drained hdrained
    rw [hrecorder captured' hcaptured'] at hcaptured
    rwa [← hcaptured]
  have hleft : ∀ row, .left .monitor row ∈ w'.acts → .left .monitor row ∈ w.acts := by
    intro row hmem
    rw [hacts] at hmem
    exact (List.mem_append.mp hmem).resolve_right (hmore.2 row)
  have hnext : .nextAction ∉ w.acts → .nextAction ∉ w'.acts := by
    intro hold hmem
    rw [hacts] at hmem
    exact (List.mem_append.mp hmem).elim hold hmore.1
  exact {
    request := hrequest
    flag := by
      intro outcome failed captured hcase hcaptured
      rw [hmonitor] at hcase
      exact h.flag outcome failed captured hcase
        (hback captured (by rw [hcase]; rfl) hcaptured)
    decided := by
      intro outcome allow captured hcase hcaptured
      rw [hmonitor] at hcase
      rw [hlocked outcome allow hcase]
      exact h.decided outcome allow captured hcase
        (hback captured (by rw [hcase]; rfl) hcaptured)
    silent := by
      intro hbefore
      rw [hmonitor] at hbefore
      have hsilent := h.silent hbefore
      exact ⟨hnext hsilent.1, fun row hmem => hsilent.2 row (hleft row hmem)⟩
    ended := by
      intro row hmem
      obtain ⟨captured, hcaptured⟩ := h.ended row (hleft row hmem)
      exact ⟨captured, hrecorder captured hcaptured⟩
    told := by
      intro before row after hsplit
      rw [hacts] at hsplit
      obtain ⟨after', hold⟩ := split_append hsplit (hmore.2 row)
      obtain ⟨hrow, hterminal, hfirst⟩ := h.told before row after' hold
      apply And.intro (hlasts row hrow hterminal)
      apply And.intro hterminal
      intro status hstatus
      obtain ⟨hcomplete, hquiet, hfollowing⟩ := hfirst status hstatus
      rw [hmonitor]
      apply And.intro _ ⟨hnext hquiet, hfollowing⟩
      intro hended
      apply hcomplete
      have hmem : .left .monitor row ∈ w.acts := by
        rw [hold]
        exact List.mem_append_right _ List.mem_cons_self
      obtain ⟨captured, hcaptured⟩ := h.ended row hmem
      rw [hrecorder captured hcaptured] at hended
      rw [hcaptured, hended] }

theorem firstRequest_append (acts more : List Act) :
    firstRequest (acts ++ more) = (firstRequest acts).or (firstRequest more) :=
  List.findSome?_append

namespace World

theorem Told.quiet {w w' : World} (h : w.Told) (hsealing : w.Sealing) (more : List Act)
    (hacts : w'.acts = w.acts ++ more)
    (hmore : .nextAction ∉ more ∧ ∀ row, .left .monitor row ∉ more)
    (hnone : firstRequest more = none) (hrequest : w'.requestedStop = w.requestedStop)
    (hlasts : Lasts w w') (hmonitor : w'.monitor = w.monitor)
    (hrecorder : ∀ captured, w.recorder = .ended captured → w'.recorder = .ended captured) :
    w'.Told := by
  apply h.carry hsealing hacts hmore _ hlasts hmonitor hrecorder fun _ _ _ => hrequest
  rw [hacts, firstRequest_append, hnone, Option.or_none, hrequest]
  exact h.request

structure Alike (w w' : World) : Prop where
  monitor : w'.monitor = w.monitor
  recorder : w'.recorder = w.recorder
  owner : w'.owner = w.owner
  requestedStop : w'.requestedStop = w.requestedStop
  acts : w'.acts = w.acts

structure Inv (w : World) : Prop where
  shape : w.Shape
  sealing : w.Sealing
  told : w.Told

theorem Inv.alike {w w' : World} (h : w.Inv) (halike : Alike w w') (hshape : w'.Shape)
    (hlasts : Lasts w w') : w'.Inv where
  shape := hshape
  sealing := by
    apply h.sealing.same halike.monitor halike.recorder halike.owner
    rw [halike.acts]
    exact id
  told := by
    apply h.told.quiet h.sealing []
    · rw [halike.acts, List.append_nil]
    · simp
    · rfl
    · exact halike.requestedStop
    · exact hlasts
    · exact halike.monitor
    · rw [halike.recorder]
      exact fun _ hcaptured => hcaptured

theorem Inv.left {w w' : World} (h : w.Inv) (hshape : w'.Shape)
    (hlasts : Lasts w w') {writer : Writer} (hwriter : writer ≠ .monitor) {new : Row}
    (hmonitor : w'.monitor = w.monitor) (hrecorder : w'.recorder = w.recorder)
    (howner : w'.owner = w.owner) (hrequest : w'.requestedStop = w.requestedStop)
    (hacts : w'.acts = w.acts ++ [.left writer new]) : w'.Inv where
  shape := hshape
  sealing := by
    apply h.sealing.same hmonitor hrecorder howner
    rw [hacts]
    exact List.mem_append_left _
  told := by
    apply h.told.quiet h.sealing [.left writer new] hacts
    · simp [hwriter.symm]
    · rfl
    · exact hrequest
    · exact hlasts
    · exact hmonitor
    · rw [hrecorder]
      exact fun _ hcaptured => hcaptured

theorem Inv.owned {w w' : World} (h : w.Inv) (hshape : w'.Shape)
    (hlasts : Lasts w w') (habsent : w.monitor = .absent)
    (hmonitor : w'.monitor = w.monitor) (hrecorder : w'.recorder = w.recorder)
    (hrequest : w'.requestedStop = w.requestedStop) (hacts : w'.acts = w.acts) : w'.Inv where
  shape := hshape
  sealing := by
    have hnone := h.sealing.absent habsent
    exact {
      absent := fun _ => by rw [hrecorder, hnone]
      drained := by rw [hmonitor, habsent]; simp [Monitor.drained]
      complete := by rw [hrecorder, hnone]; simp
      noted := by rw [hrecorder, hnone]; simp }
  told := by
    apply h.told.quiet h.sealing []
    · rw [hacts, List.append_nil]
    · simp
    · rfl
    · exact hrequest
    · exact hlasts
    · exact hmonitor
    · rw [hrecorder]
      exact fun _ hcaptured => hcaptured

theorem Inv.startStep {w : World} (h : w.Inv) (move : StartMove) :
    (w.startStep move).Inv := by
  obtain ⟨hshape, hgoes⟩ := w.stepped_startStep h.shape move
  have hlasts : Lasts w (w.startStep move) := hgoes.isOver
  revert hshape hlasts
  unfold World.startStep
  split
  · split
    · exact h.alike ⟨rfl, rfl, rfl, rfl, rfl⟩
    · exact fun _ _ => h
  · exact h.alike ⟨rfl, rfl, rfl, rfl, rfl⟩
  · exact h.alike ⟨rfl, rfl, rfl, rfl, rfl⟩
  · exact h.alike ⟨rfl, rfl, rfl, rfl, rfl⟩
  · rename_i reply now hstart
    obtain heq | ⟨old, new, -, -, heq⟩ := w.update_cases reply now .failed none
    · rw [heq]
      exact h.alike ⟨rfl, rfl, rfl, rfl, rfl⟩
    · rw [heq]
      intro hshape hlasts
      exact h.left hshape hlasts (by simp) rfl rfl rfl rfl rfl
  · exact h.alike ⟨rfl, rfl, rfl, rfl, rfl⟩
  · exact h.alike ⟨rfl, rfl, rfl, rfl, rfl⟩
  · exact h.alike ⟨rfl, rfl, rfl, rfl, rfl⟩
  · rename_i hstart
    intro hshape hlasts
    have habsent := h.shape.early (by rw [hstart]; rfl)
    have hsilent := h.told.silent (by rw [habsent]; rfl)
    apply Inv.mk hshape
    · exact {
        absent := by simp
        drained := by simp [Monitor.drained]
        complete := by simp
        noted := by simp }
    · exact {
        request := h.told.request
        flag := by simp
        decided := by simp
        silent := fun _ => hsilent
        ended := fun row hmem => absurd hmem (hsilent.2 row)
        told := by
          intro before row after hsplit
          apply absurd _ (hsilent.2 row)
          rw [show w.acts = _ from hsplit]
          exact List.mem_append_right _ List.mem_cons_self }
  · exact h.alike ⟨rfl, rfl, rfl, rfl, rfl⟩
  · exact h.alike ⟨rfl, rfl, rfl, rfl, rfl⟩
  · rename_i outcome reply now hstart
    obtain ⟨heq, -⟩ | ⟨old, new, -, -, -, heq⟩ :=
      w.complete_cases .start reply now .failed none (some outcome)
    · rw [heq]
      exact h.alike ⟨rfl, rfl, rfl, rfl, rfl⟩
    · rw [heq]
      intro hshape hlasts
      exact h.left hshape hlasts (by simp) rfl rfl rfl rfl rfl
  · rename_i hstart
    have habsent := h.shape.early (by rw [hstart]; rfl)
    exact fun hshape hlasts => h.owned hshape hlasts habsent rfl rfl rfl rfl
  · exact fun _ _ => h

theorem Inv.record {w w' : World} (h : w.Inv) (hshape : w'.Shape)
    (hlasts : Lasts w w') (hthere : w.recorder ≠ .absent)
    (hopen : ∀ captured, w.recorder ≠ .ended captured) (hmonitor : w'.monitor = w.monitor)
    (hrequest : w'.requestedStop = w.requestedStop) (more : List Act)
    (hacts : w'.acts = w.acts ++ more) (hmore : more = [] ∨ more = [.sealFailed])
    (hcomplete : w'.recorder = .ended (.outcome .complete) → w'.owner = some (some .complete))
    (hnoted : (∃ outcome, w'.owner = some (some outcome)) ∨ .sealFailed ∈ w'.acts) :
    w'.Inv where
  shape := hshape
  sealing := {
    absent := by
      rw [hmonitor]
      exact fun habsent => absurd (h.sealing.absent habsent) hthere
    drained := by
      rw [hmonitor]
      intro hdrained
      obtain ⟨captured, hcaptured⟩ := h.sealing.drained hdrained
      exact absurd hcaptured (hopen captured)
    complete := hcomplete
    noted := fun _ => hnoted }
  told := by
    apply h.told.quiet h.sealing more hacts
    · obtain rfl | rfl := hmore <;> simp
    · obtain rfl | rfl := hmore <;> rfl
    · exact hrequest
    · exact hlasts
    · exact hmonitor
    · exact fun captured hcaptured => absurd hcaptured (hopen captured)

theorem Inv.recorderStep {w : World} (h : w.Inv) (move : RecorderMove) :
    (w.recorderStep move).Inv := by
  obtain ⟨hshape, hgoes⟩ := w.stepped_recorderStep h.shape move
  have hlasts : Lasts w (w.recorderStep move) := hgoes.isOver
  revert hshape hlasts
  unfold World.recorderStep
  split
  · rename_i hrecorder
    intro hshape hlasts
    apply h.record hshape hlasts (by simp [hrecorder]) (by simp [hrecorder]) rfl rfl []
    · exact (List.append_nil _).symm
    · exact .inl rfl
    · exact fun _ => rfl
    · exact .inl ⟨_, rfl⟩
  · rename_i hrecorder
    intro hshape hlasts
    apply h.record hshape hlasts (by simp [hrecorder]) (by simp [hrecorder]) rfl rfl []
    · exact (List.append_nil _).symm
    · exact .inl rfl
    · simp
    · exact .inl ⟨_, rfl⟩
  · rename_i hrecorder
    intro hshape hlasts
    apply h.record hshape hlasts (by simp [hrecorder]) (by simp [hrecorder]) rfl rfl [.sealFailed]
    · rfl
    · exact .inr rfl
    · simp
    · exact .inr (List.mem_append_right _ (List.mem_singleton_self _))
  · rename_i hrecorder
    intro hshape hlasts
    apply h.record hshape hlasts (by simp [hrecorder]) (by simp [hrecorder]) rfl rfl [.sealFailed]
    · rfl
    · exact .inr rfl
    · simp
    · exact .inr (List.mem_append_right _ (List.mem_singleton_self _))
  · rename_i killed hrecorder
    split
    · exact fun _ _ => h
    · intro hshape hlasts
      apply h.record hshape hlasts (by simp [hrecorder]) (by simp [hrecorder]) rfl rfl []
      · exact (List.append_nil _).symm
      · exact .inl rfl
      · simp
      · exact h.sealing.noted (.inl hrecorder)
  · exact fun _ _ => h

theorem Inv.goto {w w' : World} (h : w.Inv) (hshape : w'.Shape) (hlasts : Lasts w w')
    (hthere : w'.monitor ≠ .absent)
    (hdrained : w'.monitor.drained = true → ∃ captured, w.recorder = .ended captured)
    (hflag : ∀ outcome failed captured, w'.monitor = .captured outcome failed →
      w.recorder = .ended captured → failed = decide (captured ≠ .outcome .complete))
    (hdecided : ∀ outcome allow captured, w'.monitor = .deciding outcome allow →
      w.recorder = .ended captured →
      (∃ seen, outcome =
        publishedOutcome seen (decide (captured ≠ .outcome .complete)) w.requestedStop) ∧
      (w.requestedStop ≠ none → allow = false))
    (hbefore : w'.monitor.before = true → w.monitor.before = true)
    (hfollowing : ∀ exitCode, w'.monitor ≠ .following true exitCode)
    (hrecorder : w'.recorder = w.recorder) (howner : w'.owner = w.owner)
    (hrequest : w'.requestedStop = w.requestedStop) (hacts : w'.acts = w.acts) : w'.Inv where
  shape := hshape
  sealing := h.sealing.grows hthere hdrained hrecorder howner (by rw [hacts]; exact id)
  told := {
    request := by rw [hrequest, hacts]; exact h.told.request
    flag := by rw [hrecorder]; exact hflag
    decided := by rw [hrecorder, hrequest]; exact hdecided
    silent := by
      rw [hacts]
      exact fun hw' => h.told.silent (hbefore hw')
    ended := by rw [hacts, hrecorder]; exact h.told.ended
    told := by
      rw [hacts, hrecorder]
      intro before row after hsplit
      obtain ⟨hrow, hterminal, hfirst⟩ := h.told.told before row after hsplit
      apply And.intro (hlasts row hrow hterminal)
      apply And.intro hterminal
      intro status hstatus
      obtain ⟨hcomplete, hquiet, -⟩ := hfirst status hstatus
      exact ⟨hcomplete, hquiet, hfollowing⟩ }

theorem not_wins {w : World} (h : reply = .ok → w.row = none ∨ w.Over) :
    w.wins reply = false := by
  cases hwins : w.wins reply with
  | false => rfl
  | true =>
    obtain ⟨hok, hrunning⟩ := of_decide_eq_true hwins
    obtain hnone | ⟨row, hrow, hterminal⟩ := h hok
    · simp [hnone] at hrunning
    · simp only [hrow, Option.any_some, decide_eq_true_eq] at hrunning
      exact absurd hrunning hterminal

end World

theorem publishedOutcome_request (seen : NormalizedProcessOutcome) :
    (publishedOutcome seen false (some status)).statusAndExitCode.1 = status := rfl

theorem World.Inv.published {w : World} (h : w.Inv) (hmonitor : w.monitor = .deciding outcome allow)
    {new : Row} (hnew : new.status = outcome.statusAndExitCode.1) {w' : World} (hshape : w'.Shape)
    (hrow : w'.row = some new)
    (hacts : w'.acts = w.acts ++ [.left .monitor new])
    (hnext : w'.monitor = .releasing ∨ ∃ exitCode, w'.monitor = .following allow exitCode)
    (hrecorder : w'.recorder = w.recorder) (howner : w'.owner = w.owner)
    (hrequest : w'.requestedStop = w.requestedStop) : w'.Inv := by
  obtain ⟨captured, hcaptured⟩ := h.sealing.drained (by rw [hmonitor]; rfl)
  obtain ⟨⟨seen, hseen⟩, hallow⟩ := h.told.decided outcome allow captured hmonitor hcaptured
  have hsilent := h.told.silent (by rw [hmonitor]; rfl)
  have hterminal : new.terminal := by
    rw [Row.terminal, hnew]
    exact h.shape.ends outcome (by rw [hmonitor]; rfl)
  have hthere : w'.monitor ≠ .absent := by
    obtain heq | ⟨exitCode, heq⟩ := hnext <;> simp [heq]
  have hbefore : w'.monitor.before = false := by
    obtain heq | ⟨exitCode, heq⟩ := hnext <;> simp [heq, Monitor.before]
  apply World.Inv.mk hshape
  · apply h.sealing.grows hthere (fun _ => ⟨captured, hcaptured⟩) hrecorder howner
    rw [hacts]
    exact List.mem_append_left _
  · exact {
      request := by
        rw [hrequest, hacts, firstRequest_append, h.told.request]
        exact (Option.or_none).symm
      flag := by
        intro o f c hcase
        obtain heq | ⟨exitCode, heq⟩ := hnext <;> simp [heq] at hcase
      decided := by
        intro o a c hcase
        obtain heq | ⟨exitCode, heq⟩ := hnext <;> simp [heq] at hcase
      silent := by simp [hbefore]
      ended := fun _ _ => ⟨captured, by rw [hrecorder, hcaptured]⟩
      told := by
        intro before row after hsplit
        rw [hacts] at hsplit
        obtain ⟨after', hold⟩ | ⟨rfl, hlast⟩ := Run.split_concat hsplit
        · apply absurd _ (hsilent.2 row)
          rw [hold]
          exact List.mem_append_right _ List.mem_cons_self
        · cases hlast
          apply And.intro hrow
          apply And.intro hterminal
          intro status hstatus
          rw [← h.told.request] at hstatus
          rw [hrecorder, hacts]
          apply And.intro
          · intro hcomplete
            rw [hcaptured] at hcomplete
            cases hcomplete
            rw [hnew, hseen, hstatus]
            exact publishedOutcome_request seen
          · apply And.intro
            · intro hmem
              exact (List.mem_append.mp hmem).elim hsilent.1 (by simp)
            · intro exitCode hfollowing
              have hdenied := hallow (by simp [hstatus])
              obtain heq | ⟨exitCode', heq⟩ := hnext <;> simp [heq, hdenied] at hfollowing }

theorem World.Inv.followed {w w' : World} (h : w.Inv)
    (hmonitor : w.monitor = .following allow exitCode) (hshape : w'.Shape)
    (hlasts : World.Lasts w w') (more : List Act) (hacts : w'.acts = w.acts ++ more)
    (hmore : more = [] ∨ allow = true ∧ more = [.nextAction]) (hnext : w'.monitor = .releasing)
    (hrecorder : w'.recorder = w.recorder) (howner : w'.owner = w.owner)
    (hrequest : w'.requestedStop = w.requestedStop) : w'.Inv := by
  obtain ⟨captured, hcaptured⟩ := h.sealing.drained (by rw [hmonitor]; rfl)
  apply World.Inv.mk hshape
  · apply h.sealing.grows (by simp [hnext]) (fun _ => ⟨captured, hcaptured⟩) hrecorder howner
    rw [hacts]
    exact List.mem_append_left _
  · exact {
      request := by
        rw [hrequest, hacts, firstRequest_append, h.told.request]
        obtain rfl | ⟨-, rfl⟩ := hmore <;> exact (Option.or_none).symm
      flag := by simp [hnext]
      decided := by simp [hnext]
      silent := by simp [hnext, Monitor.before]
      ended := fun _ _ => ⟨captured, by rw [hrecorder, hcaptured]⟩
      told := by
        intro before row after hsplit
        rw [hacts] at hsplit
        have hnot : .left .monitor row ∉ more := by
          obtain rfl | ⟨-, rfl⟩ := hmore <;> simp
        obtain ⟨after', hold⟩ := split_append hsplit hnot
        obtain ⟨hrow, hterminal, hfirst⟩ := h.told.told before row after' hold
        apply And.intro (hlasts row hrow hterminal)
        apply And.intro hterminal
        intro status hstatus
        obtain ⟨hcomplete, hquiet, hfollowing⟩ := hfirst status hstatus
        rw [hrecorder, hacts]
        apply And.intro hcomplete
        apply And.intro
        · obtain rfl | ⟨rfl, -⟩ := hmore
          · simpa using hquiet
          · exact absurd hmonitor (hfollowing exitCode)
        · simp [hnext] }

theorem World.Inv.monitorStep {w : World} (h : w.Inv) (x : Execution) (move : MonitorMove) :
    (w.monitorStep x move).Inv := by
  obtain ⟨hshape, hgoes⟩ := w.stepped_monitorStep h.shape x move
  have hlasts : World.Lasts w (w.monitorStep x move) := hgoes.isOver
  revert hshape hlasts
  unfold World.monitorStep
  split
  · exact fun _ _ => h
  · exact fun _ _ => h
  · intro hshape hlasts
    apply h.goto hshape hlasts <;> simp [Monitor.drained, Monitor.before]
  · rename_i hmonitor
    intro hshape hlasts
    apply h.goto hshape hlasts <;> simp [Monitor.drained, Monitor.before, hmonitor]
  · rename_i hmonitor
    split
    · intro hshape hlasts
      apply h.goto hshape hlasts <;> simp [Monitor.drained, Monitor.before, hmonitor]
    · exact fun _ _ => h
  · rename_i hmonitor
    intro hshape hlasts
    apply h.goto hshape hlasts <;> simp [Monitor.drained, Monitor.before, hmonitor]
  · rename_i hmonitor
    intro hshape hlasts
    apply h.goto hshape hlasts <;> simp [Monitor.drained, Monitor.before, hmonitor]
  · rename_i hmonitor
    split
    · rename_i captured hcaptured
      intro hshape hlasts
      apply h.goto hshape hlasts <;>
        simp [Monitor.drained, Monitor.before, hmonitor, hcaptured]
    · exact fun _ _ => h
  · rename_i outcome failed hmonitor
    intro hshape hlasts
    have hended := h.sealing.drained (by rw [hmonitor]; rfl)
    apply h.goto hshape hlasts
    · simp
    · exact fun _ => hended
    · simp
    · intro outcome' allow captured hnext hcaptured
      cases hnext
      rw [h.told.flag outcome failed captured hmonitor hcaptured]
      apply And.intro ⟨outcome, rfl⟩
      intro hrequested
      cases hcase : w.requestedStop with
      | none => exact absurd hcase hrequested
      | some status => simp
    · simp [Monitor.before, hmonitor]
    · simp
    · rfl
    · rfl
    · rfl
    · rfl
  · rename_i outcome allow reply now hmonitor
    dsimp only
    obtain ⟨heq, hkept⟩ | ⟨old, new, -, -, hnew, heq⟩ := w.complete_cases .monitor reply now
      outcome.statusAndExitCode.1 outcome.statusAndExitCode.2 outcome.normalizedOutcome
    · rw [heq, World.not_wins hkept]
      intro hshape hlasts
      have hended := h.sealing.drained (by rw [hmonitor]; rfl)
      apply h.goto hshape hlasts
      · simp
      · exact fun _ => hended
      · simp
      · simp
      · simp [Monitor.before]
      · simp
      · rfl
      · rfl
      · rfl
      · rfl
    · rw [heq]
      intro hshape _
      apply h.published hmonitor hnew hshape rfl rfl _ rfl rfl rfl
      split
      · exact .inr ⟨_, rfl⟩
      · exact .inl rfl
  · rename_i allow exitCode loaded hmonitor
    intro hshape hlasts
    apply h.followed hmonitor hshape hlasts _ rfl _ rfl rfl rfl rfl
    split
    · rename_i hfollows
      exact .inr ⟨hfollows.2.1, rfl⟩
    · exact .inl rfl
  · rename_i hmonitor
    split
    · exact fun _ _ => h
    · intro hshape hlasts
      have hended := h.sealing.drained (by rw [hmonitor]; rfl)
      apply h.goto hshape hlasts
      · simp
      · exact fun _ => hended
      · simp
      · simp
      · simp [Monitor.before]
      · simp
      · rfl
      · rfl
      · rfl
      · rfl
  · exact fun _ _ => h

section Stops
variable {w : World} {s : Stop} {i : Nat}

namespace World

theorem Inv.stopStep (h : w.Inv) (x : Execution) (hs : w.stops[i]? = some s) (io : StopIo) :
    (w.stopStep x i s io).Inv := by
  obtain ⟨hshape, hlasts⟩ := w.stepped_stopStep h.shape x hs io
  have halike : Alike w (w.stopStep x i s io) → (w.stopStep x i s io).Inv :=
    fun halike => h.alike halike hshape hlasts
  cases hphase : s.phase with
  | orphan =>
    revert hshape hlasts
    simp only [World.stopStep, hphase]
    obtain ⟨heq, -⟩ | ⟨old, new, -, -, -, heq⟩ :=
      w.complete_cases (.stop i) io.reply io.now s.status none none
    · rw [heq]
      exact h.alike ⟨rfl, rfl, rfl, rfl, rfl⟩
    · rw [heq]
      exact fun hshape hlasts => h.left hshape hlasts (by simp) rfl rfl rfl rfl rfl
  | record =>
    revert hshape hlasts
    simp only [World.stopStep, hphase]
    split
    · exact fun _ _ => h
    · rename_i hopen
      intro hshape hlasts
      apply Inv.mk hshape
      · exact h.sealing.same rfl rfl rfl (List.mem_append_left _)
      · -- The monitor holds the lock of the request while it decides.
        apply h.told.carry h.sealing rfl (by simp) _ hlasts rfl (fun _ hcaptured => hcaptured)
        · exact fun outcome allow hdeciding => absurd hdeciding (hopen outcome allow)
        · show w.requestedStop.or (some s.status) = firstRequest (w.acts ++ [_])
          rw [firstRequest_append, h.told.request]
          rfl
  | _ =>
    -- The other phases leave the row, the log and the requested stop alone.
    apply halike
    simp only [World.stopStep, hphase]
    repeat' split
    all_goals exact ⟨rfl, rfl, rfl, rfl, rfl⟩

theorem Inv.abandon (h : w.Inv) (hs : w.stops[i]? = some s) : (w.abandon i s).Inv := by
  obtain ⟨hshape, hlasts⟩ := w.stepped_abandon h.shape hs
  refine h.alike ?_ hshape hlasts
  unfold World.abandon
  split <;> exact ⟨rfl, rfl, rfl, rfl, rfl⟩

theorem Inv.exec (h : w.Inv) (x : Execution) (event : Event) : (w.exec x event).Inv := by
  obtain ⟨hshape, hlasts⟩ := w.stepped_exec h.shape x event
  have halike : Alike w (w.exec x event) → (w.exec x event).Inv :=
    fun halike => h.alike halike hshape hlasts
  cases event with
  | start move => exact h.startStep move
  | recorder move => exact h.recorderStep move
  | monitor move => exact h.monitorStep x move
  | stop i io =>
    simp only [World.exec]
    split
    · rename_i s hs
      exact h.stopStep x hs io
    · exact h
  | abandon i =>
    simp only [World.exec]
    split
    · rename_i s hs
      exact h.abandon hs
    · exact h
  | _ =>
    apply halike
    simp only [World.exec]
    repeat' split
    all_goals exact ⟨rfl, rfl, rfl, rfl, rfl⟩

end World

end Stops

theorem World.inv_new : World.new.Inv := by
  apply World.Inv.mk World.shape_new
  · exact {
      absent := fun _ => rfl
      drained := by simp [World.new, Monitor.drained]
      complete := by simp [World.new]
      noted := by simp [World.new] }
  · exact {
      request := rfl
      flag := by simp [World.new]
      decided := by simp [World.new]
      silent := by simp [World.new]
      ended := by simp [World.new]
      told := by simp [World.new] }

theorem World.run_inv (x : Execution) (events : List Event) :
    (Run.run (World.exec x) World.new events).Inv :=
  Run.preserves (P := World.Inv) (fun _ event h => World.Inv.exec h x event) World.inv_new events

theorem World.run_lasts {w : World} (h : w.Inv) (x : Execution) (events : List Event) {row : Row}
    (hrow : w.row = some row) (hterminal : row.terminal) :
    (Run.run (World.exec x) w events).row = some row := by
  induction events generalizing w with
  | nil => exact hrow
  | cons event events ih =>
    have hstep := (w.stepped_exec h.shape x event).2
    exact ih (h.exec x event) (hstep row hrow hterminal)

theorem World.Inv.released {w : World} (h : w.Inv) (hpast : w.start.past = true)
    (hregistered : w.registered = false) :
    w.monitor = .absent ∨ (∃ captured, w.recorder = .ended captured) ∧
      ((∃ outcome, w.owner = some (some outcome)) ∨ .sealFailed ∈ w.acts) := by
  by_cases habsent : w.monitor = .absent
  · exact .inl habsent
  by_cases hfinished : w.monitor = .finished
  · have hended := h.sealing.drained (by rw [hfinished]; rfl)
    exact .inr ⟨hended, h.sealing.noted (.inr hended)⟩
  · have hentry := h.shape.registered.mpr ⟨habsent, hfinished, hpast⟩
    simp [hregistered] at hentry

/-- A row leaves `running` once, and for the first request where there was one before the monitor
wrote and recording did not fail. A stop that returned Ok leaves the row over and, where the
execution had a child, its recorder ended and its seal tried. -/
theorem stop_and_completion_linear (x : Execution) (events later : List Event) :
    let w := Run.run (World.exec x) World.new events
    (∀ row, w.row = some row → row.status ≠ .running →
      (Run.run (World.exec x) World.new (events ++ later)).row = some row) ∧
    (∀ before row after status, w.acts = before ++ .left .monitor row :: after →
      firstRequest before = some status →
      (w.recorder = .ended (.outcome .complete) → row.status = status) ∧
      .nextAction ∉ w.acts) ∧
    (∀ stop ∈ w.stops, stop.phase = .returned true →
      (∃ row, w.row = some row ∧ row.status ≠ .running) ∧
      (w.monitor = .absent ∨ (∃ captured, w.recorder = .ended captured) ∧
        ((∃ outcome, w.owner = some (some outcome)) ∨ .sealFailed ∈ w.acts))) ∧
    ∀ stop ∈ w.stops, stop.phase = .orphan → w.registered = false := by
  intro w
  have hinv : w.Inv := World.run_inv x events
  have hfits : ∀ stop ∈ w.stops, ∃ i, w.Fits i stop := by
    intro stop hmem
    obtain ⟨i, hi⟩ := List.mem_iff_getElem?.mp hmem
    exact ⟨i, (hinv.shape.stops i stop hi).1⟩
  apply And.intro
  · intro row hrow hterminal
    rw [Run.run_append]
    exact World.run_lasts hinv x later hrow hterminal
  apply And.intro
  · intro before row after status hsplit hstatus
    obtain ⟨hcomplete, hquiet, -⟩ := (hinv.told.told before row after hsplit).2.2 status hstatus
    exact ⟨hcomplete, hquiet⟩
  apply And.intro
  · intro stop hmem hphase
    obtain ⟨i, hi⟩ := hfits stop hmem
    have hreturned : w.start.past = true ∧ w.registered = false ∧ w.Over := by
      simpa only [World.Fits, hphase] using hi
    exact ⟨hreturned.2.2, hinv.released hreturned.1 hreturned.2.1⟩
  · intro stop hmem hphase
    obtain ⟨i, hi⟩ := hfits stop hmem
    have horphan : w.start = .returned ∧ w.registered = false := by
      simpa only [World.Fits, hphase] using hi
    exact horphan.2

/-- Nor is the owner of an execution that a stop returned Ok for always sealed: where the start
failed there was no recorder, and a recorder that failed may not have been able to write the
seal. -/
theorem returned_stop_unsealed :
    let x : Execution := ⟨false, .codingAgent, false⟩
    let io : StopIo := ⟨.ok, 7, true⟩
    let startFails : List Event :=
      [.start .go, .start .go, .call .killed, .stop 0 io,
        .start (.failInner (.new .taskFailed) true), .start (.complete .ok 5),
        .start (.explain true), .stop 0 io, .stop 0 io, .stop 0 io, .stop 0 io]
    let sealFails : List Event :=
      [.start .go, .start .go, .start .go, .start .go, .start .go, .start .go, .call .killed,
        .stop 0 io, .stop 0 io, .stop 0 io, .recorder (.fail false), .recorder (.stop true),
        .stop 0 io, .exits (.exited none), .monitor .exit, .monitor (.kill true), .monitor .go,
        .monitor .go, .monitor (.complete .ok 7), .monitor (.follow true), .monitor .go,
        .stop 0 io, .stop 0 io]
    ∀ events ∈ [startFails, sealFails],
      let w := Run.run (World.exec x) World.new events
      w.stops = [⟨.killed, .returned true⟩] ∧ w.owner = some none := by
  decide +kernel

end Cdesktop.ExecutionStop
