import Mathlib.Algebra.Ring.Nat
import Mathlib.Data.List.Basic

/-! The access token, and the one forced refresh that all callers share. -/

namespace Cdesktop.TokenManager
set_option autoImplicit true

def recoveryRetryBaseDelayMs : Nat := 5000

def recoveryRetryMaxDelayMs : Nat := 60000

structure System where
  loggedIn : Bool
  remoteAuthDegraded : Bool

structure Shape where
  id : Nat
  paused : Bool

structure Auth where
  system : Option System
  pauseableShapes : List Shape
  recoveryTimeout : Option Nat
  recoveryAttempt : Nat

namespace Auth

/-- `cachedSystem && cachedSystem.login_status?.status !== 'loggedin'` -/
def loggedOut (auth : Auth) : Bool := auth.system.any fun system => !system.loggedIn

def shouldRecoverDegradedAuth (auth : Auth) : Bool :=
  auth.system.any fun system => system.loggedIn && system.remoteAuthDegraded

def setRemoteAuthDegraded (degraded : Bool) (auth : Auth) : Auth :=
  { auth with
    system := auth.system.map fun system => { system with remoteAuthDegraded := degraded } }

def setPaused (paused : Bool) (auth : Auth) : Auth :=
  { auth with pauseableShapes := auth.pauseableShapes.map fun shape => { shape with paused } }

def clearRecoveryLoop (auth : Auth) : Auth :=
  { auth with recoveryTimeout := none, recoveryAttempt := 0 }

def scheduleRecoveryAttempt (auth : Auth) : Auth :=
  if auth.recoveryTimeout.isSome then auth
  else
    { auth with
      recoveryTimeout := some
        (min (recoveryRetryBaseDelayMs * 2 ^ auth.recoveryAttempt) recoveryRetryMaxDelayMs) }

def syncRecoveryState (auth : Auth) : Auth :=
  if auth.shouldRecoverDegradedAuth then auth.scheduleRecoveryAttempt else auth.clearRecoveryLoop

def handleTokenSuccess (auth : Auth) : Auth :=
  (auth.clearRecoveryLoop.setRemoteAuthDegraded false).setPaused false

end Auth

/-- What a promise is settled with: a value, or an error of the dialog's import. -/
inductive Outcome (Token : Type) where
  | value (token : Option Token)
  | rejected

/-- Where an attempt waits: for `invalidateQueries`, `fetchQuery` or `handleUnauthorized`. -/
inductive Phase (Token : Type) where
  | invalidating
  | fetching
  | unauthorized
  | settled (outcome : Outcome Token)

/-- How `fetchQuery` ends. -/
inductive Response (Token : Type) where
  | token (token : Token)
  | noToken
  | unauthorized
  | otherError

inductive Answer (Token : Type) where
  | invalidated
  | response (response : Response Token)
  | handled (ok : Bool)

def advance : Phase Token → Answer Token → Auth → Phase Token × Auth
  | .invalidating, .invalidated, auth => (.fetching, auth)
  | .fetching, .response (.token token), auth =>
    (.settled (.value (some token)), auth.handleTokenSuccess)
  | .fetching, .response .noToken, auth | .fetching, .response .otherError, auth =>
    (.settled (.value none), (auth.setRemoteAuthDegraded true).syncRecoveryState)
  | .fetching, .response .unauthorized, auth =>
    (.unauthorized, (auth.clearRecoveryLoop.setRemoteAuthDegraded false).setPaused true)
  | .unauthorized, .handled ok, auth => (.settled (if ok then .value none else .rejected), auth)
  | phase, _, auth => (phase, auth)

/-- What a call of `getToken` returns: an attempt of its own, or a refresh's promise and what came
of it. -/
inductive Promise (Token : Type) where
  | own (phase : Phase Token)
  | shared (refresh : Nat) (outcome : Option (Outcome Token))

def Promise.outcome : Promise Token → Option (Outcome Token)
  | .own (.settled outcome) => some outcome
  | .own _ => none
  | .shared _ outcome => outcome

structure Get (Token : Type) where
  promise : Promise Token
  recovery : Bool

/-- The manager, with all refreshes that were started, a promise being its place among them, and
all calls of `getToken`. -/
structure World (Token : Type) where
  auth : Auth
  isRefreshing : Bool
  refreshPromise : Option Nat
  refreshes : List (Phase Token)
  gets : List (Get Token)

inductive Event (Token : Type) where
  | getToken (stale : Bool)
  | triggerRefresh
  | syncRecoveryState
  | registerShape (shape : Shape)
  | unregisterShape (id : Nat)
  | setSystem (system : Option System)
  | refreshStep (refresh : Nat) (answer : Answer Token)
  | getStep (get : Nat) (answer : Answer Token)
  | recoveryTimer (stale : Bool)
  | recovered (get : Nat)

namespace World
variable {Token : Type}

def new : World Token :=
  { auth := ⟨none, [], none, 0⟩
    isRefreshing := false
    refreshPromise := none
    refreshes := []
    gets := [] }

/-- `getToken` up to where it first waits. -/
def getToken (stale recovery : Bool) (w : World Token) : World Token :=
  match w.refreshPromise with
  | some refresh => { w with gets := w.gets ++ [⟨.shared refresh none, recovery⟩] }
  | none =>
    if w.auth.loggedOut then
      { w with
        auth := w.auth.clearRecoveryLoop
        gets := w.gets ++ [⟨.own (.settled (.value none)), recovery⟩] }
    else
      { w with gets := w.gets ++ [⟨.own (if stale then .invalidating else .fetching), recovery⟩] }

/-- `refreshPromise ??= doRefresh()`: the promise is set once `doRefresh` first waits, or returns. -/
def triggerRefresh (w : World Token) : World Token :=
  match w.refreshPromise with
  | some _ => w
  | none =>
    { w with
      auth := w.auth.setPaused true
      isRefreshing := if w.auth.loggedOut then w.isRefreshing else true
      refreshPromise := some w.refreshes.length
      refreshes := w.refreshes ++
        [if w.auth.loggedOut then .settled (.value none) else .invalidating] }

/-- A shape that is in the set already is not added again. -/
def registerShape (shape : Shape) (w : World Token) : World Token :=
  let shapes := w.auth.pauseableShapes
  let shapes := if shapes.any (·.id = shape.id) then shapes else shapes ++ [shape]
  { w with
    auth.pauseableShapes :=
      if w.isRefreshing then
        shapes.map fun s => if s.id = shape.id then { s with paused := true } else s
      else shapes }

def refreshStep (refresh : Nat) (answer : Answer Token) (w : World Token) : World Token :=
  match w.refreshes[refresh]? with
  | none | some (.settled _) => w
  | some phase =>
    match advance phase answer w.auth with
    | (.settled outcome, auth) =>
      { w with
        auth
        refreshes := w.refreshes.set refresh (.settled outcome)
        refreshPromise := none
        isRefreshing := false }
    | (phase, auth) => { w with auth, refreshes := w.refreshes.set refresh phase }

/-- A call that shares a refresh goes on once that is settled. -/
def getStep (get : Nat) (answer : Answer Token) (w : World Token) : World Token :=
  match w.gets[get]? with
  | none => w
  | some ⟨.own phase, recovery⟩ =>
    let (phase, auth) := advance phase answer w.auth
    { w with auth, gets := w.gets.set get ⟨.own phase, recovery⟩ }
  | some ⟨.shared refresh _, recovery⟩ =>
    match w.refreshes[refresh]? with
    | some (.settled outcome) =>
      { w with gets := w.gets.set get ⟨.shared refresh (some outcome), recovery⟩ }
    | _ => w

/-- What the recovery loop does with the token that it waited for. -/
def recoveryResult (outcome : Outcome Token) (auth : Auth) : Auth :=
  match outcome with
  | .value (some _) => auth.clearRecoveryLoop
  | .value none =>
    if auth.shouldRecoverDegradedAuth then
      { auth with recoveryAttempt := auth.recoveryAttempt + 1 }.scheduleRecoveryAttempt
    else auth.clearRecoveryLoop
  | .rejected => auth

def recovered (get : Nat) (w : World Token) : World Token :=
  match w.gets[get]? with
  | none => w
  | some call =>
    match call.recovery, call.promise.outcome with
    | true, some outcome =>
      { w with
        auth := recoveryResult outcome w.auth
        gets := w.gets.set get { call with recovery := false } }
    | _, _ => w

def recoveryTimer (stale : Bool) (w : World Token) : World Token :=
  if w.auth.recoveryTimeout.isNone then w
  else
    let w := { w with auth.recoveryTimeout := none }
    if w.auth.shouldRecoverDegradedAuth then w.getToken stale true
    else { w with auth := w.auth.clearRecoveryLoop }

def step (w : World Token) : Event Token → World Token
  | .getToken stale => w.getToken stale false
  | .triggerRefresh => w.triggerRefresh
  | .syncRecoveryState => { w with auth := w.auth.syncRecoveryState }
  | .registerShape shape => w.registerShape shape
  | .unregisterShape id =>
    { w with auth.pauseableShapes := w.auth.pauseableShapes.filter (·.id ≠ id) }
  | .setSystem system => { w with auth.system := system }
  | .refreshStep refresh answer => w.refreshStep refresh answer
  | .getStep get answer => w.getStep get answer
  | .recoveryTimer stale => w.recoveryTimer stale
  | .recovered get => w.recovered get

def run (w : World Token) (events : List (Event Token)) : World Token := events.foldl step w

def Runs (w : World Token) (refresh : Nat) : Prop :=
  ∃ phase, w.refreshes[refresh]? = some phase ∧ ∀ outcome, phase ≠ .settled outcome

/-- What the manager is for. -/
structure Recovers (w : World Token) : Prop where
  one : ∀ refresh other, w.Runs refresh → w.Runs other → refresh = other
  joined : ∀ refresh, w.Runs refresh → w.refreshPromise = some refresh ∧ w.triggerRefresh = w ∧
    ∀ stale, (w.getToken stale false).gets = w.gets ++ [⟨.shared refresh none, false⟩]
  result : ∀ call ∈ w.gets, ∀ refresh outcome, call.promise = .shared refresh (some outcome) →
    w.refreshes[refresh]? = some (.settled outcome)
  told : ∀ get refresh outcome answer recovery,
    w.gets[get]? = some ⟨.shared refresh none, recovery⟩ →
    w.refreshes[refresh]? = some (.settled outcome) →
    (w.getStep get answer).gets[get]? = some ⟨.shared refresh (some outcome), recovery⟩
  next : (∀ refresh, ¬ w.Runs refresh) → w.auth.loggedOut = false →
    w.triggerRefresh.Runs w.refreshes.length ∧ ∀ stale, (w.getToken stale false).gets =
      w.gets ++ [⟨.own (if stale then .invalidating else .fetching), false⟩]
  yields : (∀ refresh, ¬ w.Runs refresh) → w.auth.loggedOut = false → ∀ stale token events,
    (∀ answer, .getStep w.gets.length answer ∈ events →
      answer = .invalidated ∨ answer = .response (.token token)) →
    ∃ phase, (run (w.getToken stale false) events).gets[w.gets.length]? = some ⟨.own phase, false⟩ ∧
      (phase = .invalidating ∨ phase = .fetching ∨ phase = .settled (.value (some token)))
  answered : ∀ get token recovery, w.gets[get]? = some ⟨.own .fetching, recovery⟩ →
    (w.getStep get (.response (.token token))).gets[get]? =
      some ⟨.own (.settled (.value (some token))), recovery⟩
  resumed : ∀ event index token,
    (event = .refreshStep index (.response (.token token)) ∧ w.refreshes[index]? = some .fetching ∨
      event = .getStep index (.response (.token token)) ∧
        ∃ recovery, w.gets[index]? = some ⟨.own .fetching, recovery⟩) →
    ∀ shape ∈ (w.step event).auth.pauseableShapes, shape.paused = false

def Right (w : World Token) (promise : Promise Token) : Prop :=
  ∀ refresh outcome, promise = .shared refresh (some outcome) →
    w.refreshes[refresh]? = some (.settled outcome)

structure Inv (w : World Token) : Prop where
  running : ∀ refresh, w.Runs refresh ↔ w.refreshPromise = some refresh
  result : ∀ call ∈ w.gets, w.Right call.promise

theorem new_inv : Inv (new : World Token) :=
  { running := fun refresh => by simp [Runs, new]
    result := fun call hcall => nomatch hcall }

variable {w w' : World Token}

theorem Inv.frame (h : w.Inv) (hrefreshes : w'.refreshes = w.refreshes)
    (hpromise : w'.refreshPromise = w.refreshPromise)
    (hgets : ∀ call ∈ w'.gets, w.Right call.promise) : w'.Inv := by
  refine ⟨fun refresh => ?_, fun call hcall refresh outcome heq => ?_⟩
  · rw [Runs, hrefreshes, hpromise]
    exact h.running refresh
  · rw [hrefreshes]
    exact hgets call hcall refresh outcome heq

inductive Moves (w : World Token) (event : Event Token) : List (Get Token) → Prop where
  | same : Moves w event w.gets
  | called (call : Get Token) (hcall : w.Right call.promise) : Moves w event (w.gets ++ [call])
  | answered {get : Nat} (hget : w.gets[get]? = some ⟨.own phase, recovery⟩)
      (hevent : event = .getStep get answer) :
      Moves w event (w.gets.set get ⟨.own (advance phase answer w.auth).1, recovery⟩)
  | told {get : Nat} (hget : w.gets[get]? = some ⟨.shared refresh told, recovery⟩)
      (hsettled : w.refreshes[refresh]? = some (.settled outcome)) :
      Moves w event (w.gets.set get ⟨.shared refresh (some outcome), recovery⟩)
  | recovered {get : Nat} (hget : w.gets[get]? = some ⟨promise, true⟩) :
      Moves w event (w.gets.set get ⟨promise, false⟩)

def Calls (w : World Token) (event : Event Token) (w' : World Token) : Prop :=
  Moves w event w'.gets ∧ w'.refreshes = w.refreshes ∧ w'.refreshPromise = w.refreshPromise

theorem getToken_calls (stale recovery : Bool) (auth : Auth) (event : Event Token) :
    Calls w event (getToken stale recovery { w with auth }) := by
  unfold getToken
  split
  · exact ⟨.called _ nofun, rfl, rfl⟩
  · split <;> exact ⟨.called _ nofun, rfl, rfl⟩

theorem triggerRefresh_gets (w : World Token) : w.triggerRefresh.gets = w.gets := by
  unfold triggerRefresh
  split <;> rfl

theorem refreshStep_gets (refresh : Nat) (answer : Answer Token) (w : World Token) :
    (w.refreshStep refresh answer).gets = w.gets := by
  unfold refreshStep
  split
  · rfl
  · rfl
  · split <;> rfl

theorem step_calls (w : World Token) (event : Event Token) :
    (event = .triggerRefresh ∨ ∃ refresh answer, event = .refreshStep refresh answer) ∧
      (w.step event).gets = w.gets ∨ Calls w event (w.step event) := by
  cases event with
  | triggerRefresh => exact .inl ⟨.inl rfl, w.triggerRefresh_gets⟩
  | refreshStep refresh answer => exact .inl ⟨.inr ⟨_, _, rfl⟩, w.refreshStep_gets refresh answer⟩
  | getToken stale => exact .inr (getToken_calls stale false w.auth _)
  | syncRecoveryState | registerShape | unregisterShape | setSystem =>
    exact .inr ⟨.same, rfl, rfl⟩
  | getStep get answer =>
    rw [step, getStep]
    split
    · exact .inr ⟨.same, rfl, rfl⟩
    · next hget => exact .inr ⟨.answered hget rfl, rfl, rfl⟩
    · next hget =>
      split
      · next hsettled => exact .inr ⟨.told hget hsettled, rfl, rfl⟩
      · exact .inr ⟨.same, rfl, rfl⟩
  | recoveryTimer stale =>
    rw [step, recoveryTimer]
    split
    · exact .inr ⟨.same, rfl, rfl⟩
    · dsimp only
      split
      · exact .inr (getToken_calls stale true _ _)
      · exact .inr ⟨.same, rfl, rfl⟩
  | recovered get =>
    rw [step, recovered]
    split
    · exact .inr ⟨.same, rfl, rfl⟩
    · next call hget =>
      split
      · next hrecovery _ =>
        obtain ⟨promise, recovery⟩ := call
        cases hrecovery
        exact .inr ⟨.recovered hget, rfl, rfl⟩
      · exact .inr ⟨.same, rfl, rfl⟩

theorem Moves.right {moved : List (Get Token)} (h : Moves w event moved)
    (hright : ∀ call ∈ w.gets, w.Right call.promise) :
    ∀ call ∈ moved, w.Right call.promise := by
  have hset (get : Nat) (call : Get Token) (hcall : w.Right call.promise) :
      ∀ other ∈ w.gets.set get call, w.Right other.promise := fun other hother =>
    (List.mem_or_eq_of_mem_set hother).elim (hright other) fun heq => heq ▸ hcall
  cases h with
  | same => exact hright
  | called call hcall =>
    exact List.forall_mem_append.mpr ⟨hright, List.forall_mem_singleton.mpr hcall⟩
  | answered hget hevent => exact hset _ _ nofun
  | told hget hsettled => exact hset _ _ fun refresh outcome heq => by cases heq; exact hsettled
  | recovered hget => exact hset _ _ (hright ⟨_, true⟩ (List.mem_of_getElem? hget))

theorem runs_append (phase : Phase Token) (refresh : Nat)
    (hrefreshes : w'.refreshes = w.refreshes ++ [phase])
    (hphase : ∀ outcome, phase ≠ .settled outcome) :
    w'.Runs refresh ↔ w.Runs refresh ∨ refresh = w.refreshes.length := by
  unfold Runs
  rw [hrefreshes]
  rcases Nat.lt_trichotomy refresh w.refreshes.length with hlt | heq | hgt
  · rw [List.getElem?_append_left hlt]
    exact ⟨.inl, fun h => h.resolve_right (Nat.ne_of_lt hlt)⟩
  · subst heq
    exact iff_of_true ⟨phase, by simp, hphase⟩ (.inr rfl)
  · rw [List.getElem?_eq_none (by simp; omega), List.getElem?_eq_none (by omega)]
    simp [Nat.ne_of_gt hgt]

theorem Inv.triggerRefresh (h : w.Inv)
    (hlogin : w.refreshPromise = none → w.auth.loggedOut = false) : w.triggerRefresh.Inv := by
  unfold World.triggerRefresh
  split
  · exact h
  case _ hnone =>
    rw [hlogin hnone]
    refine ⟨fun refresh => ?_, fun call hcall refresh outcome heq => ?_⟩
    · rw [runs_append (w := w) .invalidating refresh rfl nofun, h.running, hnone]
      simp [eq_comm]
    · have hsettled := h.result call hcall refresh outcome heq
      exact (List.getElem?_append_left (List.getElem?_eq_some_iff.mp hsettled).1).trans hsettled

theorem runs_set {phase : Phase Token} {refresh : Nat}
    (hrefreshes : w'.refreshes = w.refreshes.set refresh phase) (hruns : w.Runs refresh)
    (other : Nat) : w'.Runs other ↔
      if other = refresh then ∀ outcome, phase ≠ .settled outcome else w.Runs other := by
  obtain ⟨old, hold, hrunning⟩ := hruns
  have hlt := (List.getElem?_eq_some_iff.mp hold).1
  unfold Runs
  rw [hrefreshes, List.getElem?_set]
  by_cases hother : refresh = other
  · subst hother
    simp [hlt]
  · rw [if_neg hother, if_neg (Ne.symm hother)]

theorem Inv.refreshStep (h : w.Inv) (refresh : Nat) (answer : Answer Token) :
    (w.refreshStep refresh answer).Inv := by
  unfold World.refreshStep
  split
  · exact h
  · exact h
  case _ old hsettled hold =>
    have hruns : w.Runs refresh := ⟨old, hold, fun outcome heq => hsettled outcome heq⟩
    have hpromise := (h.running refresh).mp hruns
    -- the outcomes that were handed on are those of other refreshes
    have hresult : ∀ phase, ∀ call ∈ w.gets, ∀ other outcome,
        call.promise = .shared other (some outcome) →
        (w.refreshes.set refresh phase)[other]? = some (.settled outcome) :=
      fun phase call hcall other outcome heq => by
        have hother := h.result call hcall other outcome heq
        have hne : refresh ≠ other := by
          rintro rfl
          exact hsettled outcome (Option.some.inj (hold.symm.trans hother))
        rw [List.getElem?_set_ne hne]
        exact hother
    split
    case _ outcome auth hadvance =>
      refine ⟨fun other => ?_, hresult _⟩
      rw [runs_set (w := w) rfl hruns, h.running, hpromise]
      grind
    case _ phase auth hphase hadvance =>
      refine ⟨fun other => ?_, hresult _⟩
      rw [runs_set (w := w) rfl hruns, h.running, hpromise]
      grind

theorem Inv.step (h : w.Inv) (event : Event Token)
    (hlogin : event = .triggerRefresh → w.refreshPromise = none → w.auth.loggedOut = false) :
    (w.step event).Inv := by
  rcases w.step_calls event with ⟨rfl | ⟨refresh, answer, rfl⟩, -⟩ | ⟨hmoves, hrefreshes, hpromise⟩
  · exact h.triggerRefresh (hlogin rfl)
  · exact h.refreshStep refresh answer
  · exact h.frame hrefreshes hpromise (hmoves.right h.result)

theorem Inv.run (h : w.Inv) (events : List (Event Token))
    (hlogin : ∀ n, events[n]? = some .triggerRefresh →
      (w.run (events.take n)).refreshPromise = none →
      (w.run (events.take n)).auth.loggedOut = false) : (w.run events).Inv := by
  induction events generalizing w with
  | nil => exact h
  | cons event events ih =>
    exact ih (h.step event fun heq => hlogin 0 (congrArg some heq)) fun n => hlogin (n + 1)

def Working (token : Token) (phase : Phase Token) : Prop :=
  phase = .invalidating ∨ phase = .fetching ∨ phase = .settled (.value (some token))

theorem Working.advance {token : Token} {phase : Phase Token} (h : Working token phase)
    {answer : Answer Token} (hanswer : answer = .invalidated ∨ answer = .response (.token token))
    (auth : Auth) : Working token (advance phase answer auth).1 := by
  rcases h with rfl | rfl | rfl <;> rcases hanswer with rfl | rfl <;>
    simp [TokenManager.advance, Working]

theorem Moves.own {get : Nat} {moved : List (Get Token)} (h : Moves w event moved)
    (hget : w.gets[get]? = some ⟨.own phase, false⟩) :
    moved[get]? = some ⟨.own phase, false⟩ ∨ ∃ answer, event = .getStep get answer ∧
      moved[get]? = some ⟨.own (advance phase answer w.auth).1, false⟩ := by
  have hlt := (List.getElem?_eq_some_iff.mp hget).1
  cases h with
  | same => exact .inl hget
  | called call hcall => exact .inl ((List.getElem?_append_left hlt).trans hget)
  | @answered _ _ answer other hother hevent =>
    by_cases heq : other = get
    · subst heq
      cases hget.symm.trans hother
      exact .inr ⟨answer, hevent, List.getElem?_set_self hlt⟩
    · exact .inl ((List.getElem?_set_ne heq).trans hget)
  | told hother hsettled =>
    refine .inl ((List.getElem?_set_ne ?_).trans hget)
    rintro rfl
    cases hget.symm.trans hother
  | recovered hother =>
    refine .inl ((List.getElem?_set_ne ?_).trans hget)
    rintro rfl
    cases hget.symm.trans hother

theorem run_own {token : Token} {get : Nat} (phase : Phase Token)
    (hget : w.gets[get]? = some ⟨.own phase, false⟩) (hphase : Working token phase)
    (events : List (Event Token))
    (hanswers : ∀ answer, .getStep get answer ∈ events →
      answer = .invalidated ∨ answer = .response (.token token)) :
    ∃ phase, (w.run events).gets[get]? = some ⟨.own phase, false⟩ ∧ Working token phase := by
  induction events generalizing w phase with
  | nil => exact ⟨phase, hget, hphase⟩
  | cons event events ih =>
    have hrest := fun answer hanswer => hanswers answer (List.mem_cons_of_mem event hanswer)
    have hmoves : Moves w event (w.step event).gets := by
      rcases w.step_calls event with ⟨-, heq⟩ | hcalls
      · exact heq ▸ .same
      · exact hcalls.1
    rcases hmoves.own hget with hkept | ⟨answer, rfl, hmoved⟩
    · exact ih phase hkept hphase hrest
    · exact ih _ hmoved (hphase.advance (hanswers answer List.mem_cons_self) w.auth) hrest

theorem handleTokenSuccess_paused (auth : Auth) :
    ∀ shape ∈ auth.handleTokenSuccess.pauseableShapes, shape.paused = false := by
  simp [Auth.handleTokenSuccess, Auth.setPaused]

theorem Inv.recovers (h : w.Inv) : w.Recovers := by
  have hnone : (∀ refresh, ¬ w.Runs refresh) → w.refreshPromise = none := fun hquiet =>
    Option.eq_none_iff_forall_ne_some.mpr fun refresh heq => hquiet refresh ((h.running _).mpr heq)
  have hgets : (∀ refresh, ¬ w.Runs refresh) → w.auth.loggedOut = false → ∀ stale,
      (w.getToken stale false).gets =
        w.gets ++ [⟨.own (if stale then .invalidating else .fetching), false⟩] :=
    fun hquiet hlogin stale => by simp [World.getToken, hnone hquiet, hlogin]
  refine
    { one := fun refresh other hrefresh hother => ?_
      joined := fun refresh hrefresh => ?_
      result := h.result
      told := fun get refresh outcome answer recovery hget hsettled => ?_
      next := fun hquiet hlogin => ⟨⟨.invalidating, ?_, nofun⟩, hgets hquiet hlogin⟩
      yields := fun hquiet hlogin stale token events hanswers => ?_
      answered := fun get token recovery hget => ?_
      resumed := fun event index token hevent => ?_ }
  · exact Option.some.inj (((h.running _).mp hrefresh).symm.trans ((h.running _).mp hother))
  · have hpromise := (h.running refresh).mp hrefresh
    refine ⟨hpromise, ?_, fun stale => ?_⟩
    · simp [World.triggerRefresh, hpromise]
    · simp [World.getToken, hpromise]
  · rw [World.getStep, hget]
    dsimp only
    rw [hsettled]
    exact List.getElem?_set_self (List.getElem?_eq_some_iff.mp hget).1
  · simp [World.triggerRefresh, hnone hquiet, hlogin]
  · refine run_own (if stale then .invalidating else .fetching) ?_ ?_ events hanswers
    · rw [hgets hquiet hlogin]
      exact List.getElem?_concat_length
    · cases stale <;> simp [Working]
  · rw [World.getStep, hget]
    exact List.getElem?_set_self (List.getElem?_eq_some_iff.mp hget).1
  · rcases hevent with ⟨rfl, hfetching⟩ | ⟨rfl, recovery, hfetching⟩
    · rw [World.step, World.refreshStep, hfetching]
      exact handleTokenSuccess_paused w.auth
    · rw [World.step, World.getStep, hfetching]
      exact handleTokenSuccess_paused w.auth

/-- In every run in which no refresh starts while the user is logged out, the manager recovers. -/
theorem run_recovers (events : List (Event Token))
    (hlogin : ∀ n, events[n]? = some .triggerRefresh →
      (run new (events.take n)).refreshPromise = none →
      (run new (events.take n)).auth.loggedOut = false) : (run new events).Recovers :=
  (new_inv.run events hlogin).recovers

theorem run_recovers_failing :
    (run new [.setSystem (some ⟨true, false⟩), .triggerRefresh, .getToken true,
      .registerShape ⟨0, false⟩, .refreshStep 0 .invalidated, .refreshStep 0 (.response .otherError),
      .getStep 0 .invalidated, .recoveryTimer false, .getStep 1 (.response (.token 7)),
      .triggerRefresh] : World Nat).Recovers :=
  run_recovers _ fun n hn _ => by
    rcases n with _ | _ | _ | _ | _ | _ | _ | _ | _ | _ | n <;> first | rfl | cases hn

/-- A refresh is asked for after the logout, and again after the next login. -/
theorem not_run_recovers : ¬ ∀ events : List (Event Nat), (run new events).Recovers := by
  intro h
  have hnext := (h [.setSystem (some ⟨false, false⟩), .triggerRefresh,
    .setSystem (some ⟨true, false⟩)]).next
  have hquiet : ∀ refresh, ¬ (run new [.setSystem (some ⟨false, false⟩), .triggerRefresh,
      .setSystem (some ⟨true, false⟩)] : World Nat).Runs refresh := by
    rintro (_ | refresh) ⟨phase, hphase, hsettled⟩
    · exact hsettled _ (Option.some.inj hphase).symm
    · cases hphase
  exact nomatch (hnext hquiet rfl).2 true

end World
end Cdesktop.TokenManager
