import Mathlib.Data.List.Induction
import Mathlib.Data.List.Infix
import Cdesktop.FilesystemWatcher

/-! Every directory of the tree stays watched, unless others are in a new one before its watch. -/

namespace Cdesktop.FilesystemWatcher
set_option autoImplicit true

theorem dropLast_isPrefix (d : Path) : d.dropLast <+: d := List.dropLast_prefix d

theorem isPrefix_dropLast {a d : Path} (h : a <+: d) (hne : a ≠ d) : a <+: d.dropLast := by
  obtain ⟨rest, rfl⟩ := h
  have hrest : rest ≠ [] := by
    rintro rfl
    exact hne (List.append_nil a).symm
  rw [List.dropLast_append_of_ne_nil hrest]
  exact ⟨_, rfl⟩

theorem ne_of_isPrefix_dropLast {a d : Path} (h : a <+: d.dropLast) (hd : d ≠ []) : a ≠ d := by
  rintro rfl
  have hle := h.length_le
  have hpos := List.length_pos_iff.mpr hd
  rw [List.length_dropLast] at hle
  omega

/-- The directories of a tree: its root, and with each directory the one it is in. -/
structure Tree (dirs : List Path) : Prop where
  root : [] ∈ dirs
  parent : ∀ d ∈ dirs, d.dropLast ∈ dirs

theorem Tree.above (h : Tree dirs) (hd : d ∈ dirs) (ha : a <+: d) : a ∈ dirs := by
  obtain ⟨rest, rfl⟩ := ha
  induction rest using List.reverseRecOn with
  | nil => rwa [List.append_nil] at hd
  | append_singleton rest name ih =>
    have hparent := h.parent _ hd
    rw [← List.append_assoc, List.dropLast_concat] at hparent
    exact ih hparent

def Allowed (settings : Settings) (d : Path) : Prop :=
  ∀ a ∈ d.inits, a ≠ [] → pathAllowed settings a = true ∧ walkSkips settings a = false

/-- The loop has yet to take the directory for gone. -/
def Pending (queue : List Action) (d : Path) : Prop := ∃ a ∈ d.inits, Action.vanish a ∈ queue

/-- The loop has yet to add the directory, and does not take it for gone after that. -/
def Announced : List Action → Path → Prop
  | [], _ => False
  | action :: queue, d => action = .appear d ∧ ¬ Pending queue d ∨ Announced queue d

def Covers (e : Watch) (d : Path) : Prop := e.alive ∧ (e.path = d ∨ e.recursive ∧ e.path <+: d)

/-- A watch covers the directory and stays, or the directory is announced, or one above it. -/
def Safe (watched : WatchedDirs) (queue : List Action) (d : Path) : Prop :=
  (∃ e ∈ watched, Covers e d ∧ ¬ Pending queue e.path) ∨
    ∃ a ∈ d.inits, a ≠ [] ∧ Announced queue a

instance (settings : Settings) (d : Path) : Decidable (Allowed settings d) :=
  inferInstanceAs (Decidable (∀ a ∈ d.inits, _))

instance (e : Watch) (d : Path) : Decidable (Covers e d) := inferInstanceAs (Decidable (_ ∧ _))

theorem Allowed.above (h : Allowed settings d) (ha : a <+: d) : Allowed settings a :=
  fun b hb => h b ((List.mem_inits b d).mpr (((List.mem_inits b a).mp hb).trans ha))

theorem Allowed.pathAllowed (h : Allowed settings d) (hd : d ≠ []) :
    pathAllowed settings d = true :=
  (h d ((List.mem_inits d d).mpr (List.prefix_refl d)) hd).1

theorem Pending.below (h : Pending queue a) (ha : a <+: d) : Pending queue d := by
  obtain ⟨b, hb, hmem⟩ := h
  exact ⟨b, (List.mem_inits b d).mpr (((List.mem_inits b a).mp hb).trans ha), hmem⟩

theorem pending_nil (d : Path) : ¬ Pending [] d := fun ⟨_, _, h⟩ => List.not_mem_nil h

theorem pending_append : Pending (queue ++ new) d ↔ Pending queue d ∨ Pending new d := by
  simp only [Pending, List.mem_append, and_or_left, exists_or]

theorem pending_vanish : Pending (.vanish a :: queue) d ↔ a <+: d ∨ Pending queue d := by
  simp only [Pending, List.mem_cons, Action.vanish.injEq, and_or_left, exists_or, List.mem_inits,
    exists_eq_right]

theorem pending_appear : Pending (.appear a :: queue) d ↔ Pending queue d := by
  simp only [Pending, List.mem_cons, reduceCtorEq, false_or]

theorem Announced.append (h : Announced queue a) (hnew : ¬ Pending new a) :
    Announced (queue ++ new) a := by
  induction queue with
  | nil => exact h.elim
  | cons action queue ih =>
    rcases h with ⟨rfl, hpending⟩ | h
    · exact .inl ⟨rfl, fun hp => (pending_append.mp hp).elim hpending hnew⟩
    · exact .inr (ih h)

theorem Announced.append_left (h : Announced new a) (queue : List Action) :
    Announced (queue ++ new) a := by
  induction queue with
  | nil => exact h
  | cons action queue ih => exact .inr ih

theorem announced_appear (a : Path) : Announced [.appear a] a := .inl ⟨rfl, pending_nil a⟩

theorem Covers.isPrefix (h : Covers e d) : e.path <+: d := by
  rcases h.2 with rfl | hrec
  · exact List.prefix_refl _
  · exact hrec.2

theorem Safe.append (h : Safe watched queue d) (hnew : ¬ Pending new d) :
    Safe watched (queue ++ new) d := by
  rcases h with ⟨e, he, hcovers, hpending⟩ | ⟨a, ha, hne, hannounced⟩
  · refine .inl ⟨e, he, hcovers, fun hp => (pending_append.mp hp).elim hpending fun hp => ?_⟩
    exact hnew (hp.below hcovers.isPrefix)
  · exact .inr ⟨a, ha, hne, hannounced.append fun hp => hnew (hp.below ((List.mem_inits a d).mp ha))⟩

theorem Safe.of_announced (ha : a <+: d) (hne : a ≠ []) (h : Announced queue a) :
    Safe watched queue d :=
  .inr ⟨a, (List.mem_inits a d).mpr ha, hne, h⟩

/-- Which watches there are for the tree: a directory the filters let pass is safe, and a watch that
ended is about to be removed. -/
structure Sound (settings : Settings) (w : World) : Prop where
  tree : Tree w.dirs
  exist : ∀ e ∈ w.watched, e.alive = true → e.path ∈ w.dirs
  ended : ∀ e ∈ w.watched, e.alive = false → Allowed settings e.path → Pending w.queue e.path
  chain : ∀ e ∈ w.watched, Allowed settings e.path → e.path ≠ [] → ¬ Pending w.queue e.path →
    w.reports e.path = true
  safe : ∀ d ∈ w.dirs, Allowed settings d → Safe w.watched w.queue d

theorem reports_iff : World.reports w d = true ↔ ∃ e ∈ w.watched, e.alive = true ∧
    (e.path = d.dropLast ∨ e.recursive = true ∧ e.path ≠ d ∧ e.path <+: d) := by
  simp [World.reports, and_assoc]

variable {e : Watch}

theorem reportsGone_of_alive (he : e ∈ w.watched) (halive : e.alive = true) :
    World.reportsGone w e.path = true := by
  rw [World.reportsGone, Bool.or_eq_true, List.any_eq_true]
  exact .inr ⟨e, he, by simp [halive]⟩

theorem reportsGone_of_reports (h : World.reports w d = true) : World.reportsGone w d = true := by
  rw [World.reportsGone, h, Bool.true_or]

theorem reports_of_covers (he : e ∈ w.watched) (h : Covers e d.dropLast)
    (hd : d ≠ []) : World.reports w d = true := by
  refine reports_iff.mpr ⟨e, he, h.1, ?_⟩
  rcases h.2 with heq | ⟨hrec, hpath⟩
  · exact .inl heq
  · exact .inr ⟨hrec, ne_of_isPrefix_dropLast hpath hd, hpath.trans (dropLast_isPrefix d)⟩

/-- Where a watch stays, that a directory above it goes is reported. By induction on the length of
the path, up the watches that cover each other. -/
theorem Sound.reportsGone (h : Sound settings w) (he : e ∈ w.watched)
    (halive : e.alive = true) (hallowed : Allowed settings e.path)
    (hstays : ¬ Pending w.queue e.path) (hs : s <+: e.path) (hne : s ≠ []) :
    w.reportsGone s = true := by
  induction hn : e.path.length using Nat.strong_induction_on generalizing e with
  | _ n ih =>
    subst hn
    by_cases hse : s = e.path
    · exact hse ▸ reportsGone_of_alive he halive
    · have hroot : e.path ≠ [] := fun h0 => hne (List.prefix_nil.mp (h0 ▸ hs))
      have hparent := isPrefix_dropLast hs hse
      have up : ∀ e' ∈ w.watched, e'.alive = true → e'.path <+: e.path.dropLast →
          s <+: e'.path → w.reportsGone s = true := by
        intro e' he' halive' hpath hs'
        have hbelow := hpath.trans (dropLast_isPrefix e.path)
        have hlength := hpath.length_le
        have hpos := List.length_pos_iff.mpr hroot
        rw [List.length_dropLast] at hlength
        exact ih e'.path.length (by omega) he' halive' (hallowed.above hbelow)
          (fun hp => hstays (hp.below hbelow)) hs' rfl
      obtain ⟨e', he', halive', hpath⟩ := reports_iff.mp (h.chain e he hallowed hroot hstays)
      rcases hpath with hpath | ⟨hrec, hneq, hpath⟩
      · exact up e' he' halive' (hpath ▸ List.prefix_refl _) (hpath ▸ hparent)
      · rcases List.prefix_or_prefix_of_prefix hs hpath with hle | hle
        · exact up e' he' halive' (isPrefix_dropLast hpath hneq) hle
        · by_cases hse' : e'.path = s
          · exact hse' ▸ reportsGone_of_alive he' halive'
          · exact reportsGone_of_reports
              (reports_iff.mpr ⟨e', he', halive', .inr ⟨hrec, hse', hle⟩⟩)

theorem mem_endBelow (he : e ∈ WatchedDirs.endBelow watched s) :
    e ∈ watched ∧ ¬ s <+: e.path ∨
      s <+: e.path ∧ e.alive = false ∧ ∃ e' ∈ watched, e'.path = e.path := by
  obtain ⟨e', he', rfl⟩ := List.mem_map.mp he
  by_cases hs : s <+: e'.path
  · rw [if_pos (List.isPrefixOf_iff_prefix.mpr hs)]
    exact .inr ⟨hs, rfl, e', he', rfl⟩
  · rw [if_neg (fun hp => hs (List.isPrefixOf_iff_prefix.mp hp))]
    exact .inl ⟨he', hs⟩

theorem mem_endBelow_of_not (he : e ∈ watched) (hs : ¬ s <+: e.path) :
    e ∈ WatchedDirs.endBelow watched s :=
  List.mem_map.mpr ⟨e, he, if_neg fun hp => hs (List.isPrefixOf_iff_prefix.mp hp)⟩

theorem Safe.endBelow (h : Safe watched queue d) (hs : ¬ s <+: d) :
    Safe (WatchedDirs.endBelow watched s) queue d := by
  rcases h with ⟨e, he, hcovers, hpending⟩ | h
  · exact .inl ⟨e, mem_endBelow_of_not he fun hp => hs (hp.trans hcovers.isPrefix), hcovers, hpending⟩
  · exact .inr h

/-- After a directory went, and was reported where a watch reports it, each watch that ended is
about to be removed. -/
theorem Sound.ended_endBelow (h : Sound settings w) (hne : s ≠ [])
    (hnew : w.reportsGone s = true → Action.vanish s ∈ new)
    (he : e ∈ w.watched.endBelow s) (halive : e.alive = false) (hallowed : Allowed settings e.path) :
    Pending (w.queue ++ new) e.path := by
  rcases mem_endBelow he with ⟨he', -⟩ | ⟨hs, -, e', he', hpath⟩
  · exact pending_append.mpr (.inl (h.ended e he' halive hallowed))
  · by_cases hstays : Pending w.queue e.path
    · exact pending_append.mpr (.inl hstays)
    · cases halive' : e'.alive with
      | false => exact absurd (hpath ▸ h.ended e' he' halive' (hpath ▸ hallowed)) hstays
      | true =>
        have hgone := h.reportsGone he' halive' (hpath ▸ hallowed) (hpath ▸ hstays) (hpath ▸ hs) hne
        exact pending_append.mpr (.inr ⟨s, (List.mem_inits s e.path).mpr hs, hnew hgone⟩)

theorem Sound.chain_endBelow (h : Sound settings w) (hne : s ≠ [])
    (hnew : w.reportsGone s = true → Action.vanish s ∈ new) {dirs : List Path}
    (he : e ∈ w.watched.endBelow s) (hallowed : Allowed settings e.path) (hroot : e.path ≠ [])
    (hstays : ¬ Pending (w.queue ++ new) e.path) :
    World.reports ⟨dirs, w.watched.endBelow s, w.queue ++ new⟩ e.path = true := by
  rcases mem_endBelow he with ⟨he', hs⟩ | ⟨-, halive, -⟩
  · have hold : ¬ Pending w.queue e.path := fun hp => hstays (pending_append.mpr (.inl hp))
    obtain ⟨e'', he'', halive, hpath⟩ := reports_iff.mp (h.chain e he' hallowed hroot hold)
    have hbelow : e''.path <+: e.path := by
      rcases hpath with hpath | ⟨-, -, hpath⟩
      · exact hpath ▸ dropLast_isPrefix e.path
      · exact hpath
    exact reports_iff.mpr ⟨e'', mem_endBelow_of_not he'' fun hp => hs (hp.trans hbelow), halive, hpath⟩
  · exact absurd (h.ended_endBelow hne hnew he halive hallowed) hstays

theorem not_pending (h : ∀ a, Action.vanish a ∈ queue → ¬ a <+: d) : ¬ Pending queue d :=
  fun ⟨a, ha, hmem⟩ => h a hmem ((List.mem_inits a d).mp ha)

theorem Sound.grow (h : Sound settings w) {dirs : List Path} (htree : Tree dirs)
    (hdirs : ∀ d ∈ w.dirs, d ∈ dirs)
    (hsafe : ∀ d ∈ dirs, Allowed settings d → Safe w.watched (w.queue ++ new) d) :
    Sound settings ⟨dirs, w.watched, w.queue ++ new⟩ where
  tree := htree
  exist e he halive := hdirs _ (h.exist e he halive)
  ended e he halive hallowed := pending_append.mpr (.inl (h.ended e he halive hallowed))
  chain e he hallowed hroot hstays :=
    h.chain e he hallowed hroot fun hp => hstays (pending_append.mpr (.inl hp))
  safe := hsafe

theorem Sound.safe_new (h : Sound settings w) (hne : path ≠ []) (hparent : path.dropLast ∈ w.dirs)
    (hallowed : Allowed settings path) (hnew : ¬ Pending new path.dropLast)
    (happear : w.reports path = true → Announced new path) (hd : path <+: d) :
    Safe watched (w.queue ++ new) d := by
  cases hreports : w.reports path with
  | true => exact .of_announced hd hne ((happear hreports).append_left _)
  | false =>
    rcases h.safe _ hparent (hallowed.above (dropLast_isPrefix path)) with
      ⟨e, he, hcovers, -⟩ | ⟨a, ha, hane, hannounced⟩
    · rw [reports_of_covers he hcovers hne] at hreports
      cases hreports
    · have hpath := (List.mem_inits a path.dropLast).mp ha
      exact .of_announced ((hpath.trans (dropLast_isPrefix path)).trans hd) hane
        (hannounced.append fun hp => hnew (hp.below hpath))

theorem Sound.mkdir (h : Sound settings w) (path : Path) : Sound settings (w.mkdir path) := by
  rw [World.mkdir]
  split
  · rename_i hpath
    obtain ⟨hne, -, hparent⟩ := hpath
    have hvanish : ∀ d, ¬ Pending
        ((if w.reports path then [Event.create [path]] else []).flatMap Event.actions) d := by
      intro d
      apply not_pending
      intro a ha
      split at ha <;> simp [Event.actions] at ha
    have happear : w.reports path = true → Announced
        ((if w.reports path then [Event.create [path]] else []).flatMap Event.actions) path := by
      intro hreports
      rw [if_pos hreports]
      exact announced_appear path
    refine h.grow ⟨List.mem_cons_of_mem _ h.tree.root, ?_⟩ (fun d => List.mem_cons_of_mem _) ?_
    · intro d hd
      rcases List.mem_cons.mp hd with rfl | hd
      · exact List.mem_cons_of_mem _ hparent
      · exact List.mem_cons_of_mem _ (h.tree.parent d hd)
    · intro d hd hallowed
      rcases List.mem_cons.mp hd with rfl | hd
      · exact h.safe_new hne hparent hallowed (hvanish _) happear (List.prefix_refl d)
      · exact (h.safe d hd hallowed).append (hvanish d)
  · exact h

theorem vanish_mem_paths {event : Event} (h : Action.vanish a ∈ event.actions) :
    a ∈ event.paths := by
  cases event with
  | create paths => simp [Event.actions] at h
  | remove paths => simpa [Event.actions, Event.paths] using h
  | other paths => cases h
  | name mode paths =>
    cases mode with
    | sideFrom => simpa [Event.actions, Event.paths] using h
    | sideTo => simp [Event.actions] at h
    | any => simpa [Event.actions, Event.paths] using h
    | both =>
      cases paths with
      | nil => cases h
      | cons source rest => simp_all [Event.actions, Event.paths]

theorem Sound.elsewhere (h : Sound settings w) (event : Event) :
    Sound settings (w.elsewhere event) := by
  rw [World.elsewhere]
  split
  · rename_i hpaths
    refine h.grow h.tree (fun d hd => hd) fun d hd hallowed => (h.safe d hd hallowed).append ?_
    apply not_pending
    intro a ha hpath
    rw [List.flatMap_singleton] at ha
    exact hpaths a (vanish_mem_paths ha) (h.tree.above hd hpath)
  · exact h

theorem Sound.rmdir (h : Sound settings w) (path : Path) : Sound settings (w.rmdir path) := by
  rw [World.rmdir]
  split
  · rename_i hpath
    obtain ⟨hne, -, hchildless⟩ := hpath
    have hgone : w.reportsGone path = true → Action.vanish path ∈
        (if w.reportsGone path then [Event.remove [path]] else []).flatMap Event.actions := by
      intro hreports
      rw [if_pos hreports]
      exact List.mem_singleton.mpr rfl
    have hother : ∀ d ∈ w.dirs.filter (· ≠ path), d ∈ w.dirs ∧ ¬ path <+: d := by
      intro d hd
      obtain ⟨hd, hdne⟩ := List.mem_filter.mp hd
      exact ⟨hd, fun hp => of_decide_eq_true hdne (hchildless d hd hp)⟩
    refine ⟨⟨?_, ?_⟩, ?_, ?_, ?_, ?_⟩
    · exact List.mem_filter.mpr ⟨h.tree.root, decide_eq_true hne.symm⟩
    · intro d hd
      obtain ⟨hd, hdpath⟩ := hother d hd
      refine List.mem_filter.mpr ⟨h.tree.parent d hd, decide_eq_true fun heq => ?_⟩
      exact hdpath (heq ▸ dropLast_isPrefix d)
    · intro e he halive
      rcases mem_endBelow he with ⟨he, hs⟩ | ⟨-, hended, -⟩
      · refine List.mem_filter.mpr ⟨h.exist e he halive, decide_eq_true fun heq => ?_⟩
        exact hs (heq ▸ List.prefix_refl _)
      · rw [hended] at halive
        cases halive
    · exact fun e he halive hallowed => h.ended_endBelow hne hgone he halive hallowed
    · exact fun e he hallowed hroot hstays => h.chain_endBelow hne hgone he hallowed hroot hstays
    · intro d hd hallowed
      obtain ⟨hd, hdpath⟩ := hother d hd
      refine ((h.safe d hd hallowed).endBelow hdpath).append (not_pending fun a ha => ?_)
      split at ha
      · have heq : a = path := by simpa [Event.actions] using ha
        exact heq ▸ hdpath
      · cases ha
  · exact h

def renameActions (sides gone new : Bool) (source target : Path) : List Action :=
  (World.renameEvents sides gone new source target).flatMap Event.actions

theorem vanish_mem_renameActions (h : Action.vanish a ∈ renameActions sides gone new source target) :
    a = source ∨ a = target := by
  cases sides <;> cases gone <;> cases new <;>
    simp [renameActions, World.renameEvents, Event.actions] at h <;> simp [h]

theorem renameActions_gone : Action.vanish source ∈ renameActions sides true new source target := by
  cases sides <;> cases new <;> simp [renameActions, World.renameEvents, Event.actions]

theorem renameActions_new : Announced (renameActions sides gone true source target) target := by
  cases sides <;> cases gone
  · exact (announced_appear target).append_left [.vanish target]
  · exact (announced_appear target).append_left [.vanish source, .appear source, .vanish target]
  · exact announced_appear target
  · exact (announced_appear target).append_left [.vanish source]

theorem movedTo_of_not (h : ¬ source <+: d) : World.movedTo source target d = d :=
  if_neg fun hp => h (List.isPrefixOf_iff_prefix.mp hp)

theorem movedTo_append (source target rest : Path) :
    World.movedTo source target (source ++ rest) = target ++ rest := by
  rw [World.movedTo, if_pos (List.isPrefixOf_iff_prefix.mpr ⟨rest, rfl⟩), List.drop_left]

theorem Tree.rename (h : Tree dirs) (hsource : source ≠ []) (hparent : target.dropLast ∈ dirs)
    (htarget : ¬ source <+: target) : Tree (dirs.map (World.movedTo source target)) := by
  have keep : ∀ d ∈ dirs, ¬ source <+: d → d ∈ dirs.map (World.movedTo source target) :=
    fun d hd hs => List.mem_map.mpr ⟨d, hd, movedTo_of_not hs⟩
  refine ⟨keep [] h.root fun hp => hsource (List.prefix_nil.mp hp), fun d' hd' => ?_⟩
  obtain ⟨d, hd, rfl⟩ := List.mem_map.mp hd'
  by_cases hs : source <+: d
  · obtain ⟨rest, rfl⟩ := hs
    rw [movedTo_append]
    by_cases hrest : rest = []
    · rw [hrest, List.append_nil]
      exact keep _ hparent fun hp => htarget (hp.trans (dropLast_isPrefix target))
    · have habove := h.parent _ hd
      rw [List.dropLast_append_of_ne_nil hrest] at habove ⊢
      exact List.mem_map.mpr ⟨_, habove, movedTo_append ..⟩
  · rw [movedTo_of_not hs]
    exact keep _ (h.parent d hd) fun hp => hs (hp.trans (dropLast_isPrefix d))

theorem Sound.rename (h : Sound settings w) (sides : Bool) (source target : Path) :
    Sound settings (w.rename sides source target) := by
  rw [World.rename]
  split
  · rename_i hpaths
    obtain ⟨hsource, -, htarget, hfree, hparent, hapart⟩ := hpaths
    have hgone : w.reportsGone source = true → Action.vanish source ∈
        renameActions sides (w.reportsGone source) (w.reports target) source target :=
      fun hreports => hreports ▸ renameActions_gone
    have hnew : w.reports target = true → Announced
        (renameActions sides (w.reportsGone source) (w.reports target) source target) target :=
      fun hreports => hreports ▸ renameActions_new
    have hvanish : ∀ d, ¬ source <+: d → ¬ target <+: d → ¬ Pending
        (renameActions sides (w.reportsGone source) (w.reports target) source target) d := by
      intro d hs ht
      apply not_pending
      intro a ha
      rcases vanish_mem_renameActions ha with rfl | rfl
      · exact hs
      · exact ht
    refine ⟨h.tree.rename hsource hparent hapart, ?_, ?_, ?_, ?_⟩
    · intro e he halive
      rcases mem_endBelow he with ⟨he, hs⟩ | ⟨-, hended, -⟩
      · exact List.mem_map.mpr ⟨e.path, h.exist e he halive, movedTo_of_not hs⟩
      · rw [hended] at halive
        cases halive
    · exact fun e he halive hallowed => h.ended_endBelow hsource hgone he halive hallowed
    · exact fun e he hallowed hroot hstays => h.chain_endBelow hsource hgone he hallowed hroot hstays
    · intro d' hd' hallowed
      obtain ⟨d, hd, rfl⟩ := List.mem_map.mp hd'
      by_cases hs : source <+: d
      · obtain ⟨rest, rfl⟩ := hs
        rw [movedTo_append] at hallowed ⊢
        have hbelow : target <+: target ++ rest := ⟨rest, rfl⟩
        refine h.safe_new htarget hparent (hallowed.above hbelow) (hvanish _ ?_ ?_) hnew hbelow
        · exact fun hp => hapart (hp.trans (dropLast_isPrefix target))
        · exact fun hp => ne_of_isPrefix_dropLast hp htarget rfl
      · rw [movedTo_of_not hs] at hallowed ⊢
        refine ((h.safe d hd hallowed).endBelow hs).append (hvanish d hs fun hp => ?_)
        exact hfree (h.tree.above hd hp)
  · exact h

theorem Sound.vanish (h : Sound settings ⟨dirs, watched, .vanish path :: queue⟩) :
    Sound settings ⟨dirs, removeDirectoryWatch path watched, queue⟩ := by
  have hmem : ∀ e, e ∈ removeDirectoryWatch path watched ↔ e ∈ watched ∧ ¬ path <+: e.path := by
    intro e
    rw [removeDirectoryWatch, WatchedDirs.removeDirAndChildren, List.mem_filter, Bool.not_eq_true',
      ← Bool.not_eq_true, List.isPrefixOf_iff_prefix]
  refine ⟨h.tree, fun e he => h.exist e ((hmem e).mp he).1, ?_, ?_, ?_⟩
  · intro e he halive hallowed
    obtain ⟨he, hpath⟩ := (hmem e).mp he
    exact (pending_vanish.mp (h.ended e he halive hallowed)).resolve_left hpath
  · intro e he hallowed hroot hstays
    obtain ⟨he, hpath⟩ := (hmem e).mp he
    obtain ⟨e', he', halive, hcovers⟩ := reports_iff.mp (h.chain e he hallowed hroot fun hp =>
      (pending_vanish.mp hp).elim hpath hstays)
    have hbelow : e'.path <+: e.path := by
      rcases hcovers with hcovers | ⟨-, -, hcovers⟩
      · exact hcovers ▸ dropLast_isPrefix e.path
      · exact hcovers
    exact reports_iff.mpr ⟨e', (hmem e').mpr ⟨he', fun hp => hpath (hp.trans hbelow)⟩, halive, hcovers⟩
  · intro d hd hallowed
    rcases h.safe d hd hallowed with ⟨e, he, hcovers, hstays⟩ | ⟨a, ha, hne, hannounced⟩
    · rw [pending_vanish, not_or] at hstays
      exact .inl ⟨e, (hmem e).mpr ⟨he, hstays.1⟩, hcovers, hstays.2⟩
    · exact .inr ⟨a, ha, hne, hannounced.resolve_left fun hp => Action.noConfusion hp.1⟩

theorem Sound.appear (h : Sound settings ⟨dirs, watched, .appear path :: queue⟩)
    (hsafe : ∀ d ∈ dirs, Allowed settings d → path <+: d → path ≠ [] → ¬ Pending queue path →
      Safe watched queue d) : Sound settings ⟨dirs, watched, queue⟩ where
  tree := h.tree
  exist := h.exist
  ended e he halive hallowed := pending_appear.mp (h.ended e he halive hallowed)
  chain e he hallowed hroot hstays :=
    h.chain e he hallowed hroot fun hp => hstays (pending_appear.mp hp)
  safe d hd hallowed := by
    rcases h.safe d hd hallowed with ⟨e, he, hcovers, hstays⟩ | ⟨a, ha, hne, ⟨heq, hstays⟩ | hannounced⟩
    · exact .inl ⟨e, he, hcovers, fun hp => hstays (pending_appear.mpr hp)⟩
    · cases heq
      exact hsafe d hd hallowed ((List.mem_inits path d).mp ha) hne hstays
    · exact .inr ⟨a, ha, hne, hannounced⟩

def watchAdded (watched : WatchedDirs) (path : Path) (recursive : Bool) : WatchedDirs :=
  (if recursive then watched.removeChildrenOnly path else watched).insert path recursive

theorem addDirectoryWatch_cases (settings : Settings) (dirs : List Path) (path : Path)
    (watched : WatchedDirs) :
    (addDirectoryWatch settings dirs path watched = watched ∧
      (pathAllowed settings path = false ∨ settings.refused path = true ∨
        ∃ e ∈ watched, e.path = path ∨ e.recursive = true ∧ e.path <+: path)) ∨
    (addDirectoryWatch settings dirs path watched =
        watchAdded watched path (determineWatchMode settings dirs path) ∧
      watched.contains path = false) := by
  rw [addDirectoryWatch]
  split
  · rename_i hallowed
    exact .inl ⟨rfl, .inl (by simpa using hallowed)⟩
  · split
    · rename_i hcovered
      rw [Bool.or_eq_true, WatchedDirs.contains, WatchedDirs.hasRecursiveCover, List.any_eq_true,
        List.any_eq_true] at hcovered
      refine .inl ⟨rfl, .inr (.inr ?_)⟩
      rcases hcovered with ⟨e, he, hpath⟩ | ⟨e, he, hcovers⟩
      · exact ⟨e, he, .inl (of_decide_eq_true hpath)⟩
      · rw [Bool.and_eq_true, Bool.and_eq_true, List.isPrefixOf_iff_prefix] at hcovers
        exact ⟨e, he, .inr ⟨hcovers.1.1, hcovers.2⟩⟩
    · rename_i hcovered
      rw [Bool.or_eq_true, not_or, Bool.not_eq_true] at hcovered
      split
      · rename_i hrefused
        exact .inl ⟨rfl, .inr (.inl hrefused)⟩
      · exact .inr ⟨rfl, hcovered.1⟩

theorem mem_watchAdded : e ∈ watchAdded watched path recursive ↔
    e = ⟨path, recursive, true⟩ ∨
      e ∈ watched ∧ e.path ≠ path ∧ (recursive = true → ¬ path <+: e.path) := by
  rw [watchAdded, WatchedDirs.insert, List.mem_append, List.mem_filter, List.mem_singleton, or_comm]
  refine or_congr_right ?_
  cases recursive with
  | false => simp
  | true =>
    simp only [if_true, WatchedDirs.removeChildrenOnly, List.mem_filter, decide_eq_true_eq,
      Bool.not_eq_true', Bool.and_eq_false_iff, bne_eq_false_iff_eq, forall_const,
      ← List.isPrefixOf_iff_prefix, Bool.not_eq_true]
    constructor
    · rintro ⟨⟨he, hor⟩, hne⟩
      exact ⟨he, hne, hor.resolve_right hne⟩
    · rintro ⟨he, hne, hpath⟩
      exact ⟨⟨he, .inl hpath⟩, hne⟩

theorem watchAdded_keeps (he : e ∈ watched) (hnew : watched.contains path = false)
    (recursive : Bool) :
    e ∈ watchAdded watched path recursive ∨ recursive = true ∧ path <+: e.path := by
  by_cases hcovered : recursive = true ∧ path <+: e.path
  · exact .inr hcovered
  · refine .inl (mem_watchAdded.mpr (.inr ⟨he, fun heq => ?_, fun hrec hp => hcovered ⟨hrec, hp⟩⟩))
    rw [WatchedDirs.contains, List.any_eq_false] at hnew
    exact hnew e he (decide_eq_true heq)

theorem Safe.withWatch (h : Safe watched queue d) (hnew : watched.contains path = false)
    (recursive : Bool) : Safe (watchAdded watched path recursive) queue d := by
  rcases h with ⟨e, he, hcovers, hstays⟩ | h
  · rcases watchAdded_keeps he hnew recursive with hkept | ⟨hrec, hpath⟩
    · exact .inl ⟨e, hkept, hcovers, hstays⟩
    · refine .inl ⟨⟨path, recursive, true⟩, mem_watchAdded.mpr (.inl rfl), ⟨rfl, .inr ⟨hrec, ?_⟩⟩, ?_⟩
      · exact hpath.trans hcovers.isPrefix
      · exact fun hp => hstays (hp.below hpath)
  · exact .inr h

theorem Sound.withWatch (h : Sound settings ⟨dirs, watched, queue⟩) (hpath : path ∈ dirs)
    (hnew : watched.contains path = false) (recursive : Bool) (hreports : Allowed settings path →
      path ≠ [] → ¬ Pending queue path → World.reports ⟨dirs, watched, queue⟩ path = true) :
    Sound settings ⟨dirs, watchAdded watched path recursive, queue⟩ := by
  refine ⟨h.tree, ?_, ?_, ?_, fun d hd hallowed => (h.safe d hd hallowed).withWatch hnew recursive⟩
  · intro e he halive
    rcases mem_watchAdded.mp he with rfl | ⟨he, -⟩
    · exact hpath
    · exact h.exist e he halive
  · intro e he halive hallowed
    rcases mem_watchAdded.mp he with rfl | ⟨he, -⟩
    · cases halive
    · exact h.ended e he halive hallowed
  · intro e he hallowed hroot hstays
    have hold : World.reports ⟨dirs, watched, queue⟩ e.path = true := by
      rcases mem_watchAdded.mp he with rfl | ⟨he, -⟩
      · exact hreports hallowed hroot hstays
      · exact h.chain e he hallowed hroot hstays
    obtain ⟨e', he', halive, hcovers⟩ := reports_iff.mp hold
    have habove : e'.path <+: e.path.dropLast := by
      rcases hcovers with hcovers | ⟨-, hne, hcovers⟩
      · exact hcovers ▸ List.prefix_refl _
      · exact isPrefix_dropLast hcovers hne
    rcases watchAdded_keeps he' hnew recursive with hkept | ⟨hrec, hp⟩
    · exact reports_iff.mpr ⟨e', hkept, halive, hcovers⟩
    · have hpe := hp.trans habove
      rcases mem_watchAdded.mp he with rfl | ⟨-, -, hnot⟩
      · exact absurd rfl (ne_of_isPrefix_dropLast hpe hroot)
      · exact absurd (hpe.trans (dropLast_isPrefix e.path)) (hnot hrec)

/-- Where the appearance of a directory is next in the queue: its watch is granted, the directory
above it is watched or about to be removed, and each directory below it is safe without the
appearance or gets a recursive watch. -/
def Fits (settings : Settings) (w : World) : Step → Prop
  | .handle =>
    match w.queue with
    | .appear path :: queue => path ∈ w.dirs → Allowed settings path →
      settings.refused path = false ∧ (w.reports path = true ∨ Pending queue path) ∧
        ∀ d ∈ w.dirs, path <+: d → d ≠ path → Allowed settings d →
          Safe w.watched queue d ∨
            w.watched.contains path = false ∧ determineWatchMode settings w.dirs path = true
    | _ => True
  | _ => True

theorem Sound.handle (h : Sound settings w) (hfits : Fits settings w .handle) :
    Sound settings (w.handle settings) := by
  obtain ⟨dirs, watched, queue⟩ := w
  match queue with
  | [] => exact h
  | .vanish path :: queue => exact h.vanish
  | .appear path :: queue =>
    change Sound settings (if path ∈ dirs then
      ⟨dirs, addDirectoryWatch settings dirs path watched, queue⟩ else ⟨dirs, watched, queue⟩)
    split
    · rename_i hpath
      rcases addDirectoryWatch_cases settings dirs path watched with ⟨heq, hwhy⟩ | ⟨heq, hnew⟩
      · rw [heq]
        refine h.appear fun d hd hallowed hbelow hne hstays => ?_
        have hpathAllowed := hallowed.above hbelow
        obtain ⟨hrefused, -, hsafe⟩ := hfits hpath hpathAllowed
        have halive : ∀ e ∈ watched, e.path <+: path → e.alive = true := by
          intro e he habove
          by_contra hended
          rw [Bool.not_eq_true] at hended
          have hp := pending_appear.mp (h.ended e he hended (hpathAllowed.above habove))
          exact hstays (hp.below habove)
        have hcover : ∀ e ∈ watched, e.path <+: path → Covers e d → Safe watched queue d :=
          fun e he habove hcovers => .inl ⟨e, he, hcovers, fun hp => hstays (hp.below habove)⟩
        rcases hwhy with hwhy | hwhy | ⟨e, he, hwhy | ⟨hrec, habove⟩⟩
        · rw [hpathAllowed.pathAllowed hne] at hwhy
          cases hwhy
        · rw [hrefused] at hwhy
          cases hwhy
        · subst hwhy
          by_cases hd' : d = e.path
          · subst hd'
            exact hcover e he hbelow ⟨halive e he hbelow, .inl rfl⟩
          · rcases hsafe d hd hbelow hd' hallowed with hsafe | ⟨hnew, -⟩
            · exact hsafe
            · rw [WatchedDirs.contains, List.any_eq_false] at hnew
              exact absurd (decide_eq_true rfl) (hnew e he)
        · exact hcover e he habove ⟨halive e he habove, .inr ⟨hrec, habove.trans hbelow⟩⟩
      · rw [heq]
        have hreports : Allowed settings path → path ≠ [] → ¬ Pending (.appear path :: queue) path →
            World.reports ⟨dirs, watched, .appear path :: queue⟩ path = true := by
          intro hallowed _ hstays
          obtain ⟨-, hreports, -⟩ := hfits hpath hallowed
          exact hreports.resolve_right fun hp => hstays (pending_appear.mpr hp)
        refine (h.withWatch hpath hnew _ hreports).appear fun d hd hallowed hbelow _ hstays => ?_
        have hself : ∀ e : Watch, e = ⟨path, determineWatchMode settings dirs path, true⟩ →
            Covers e d → Safe (watchAdded watched path (determineWatchMode settings dirs path)) queue d :=
          fun e he hcovers => .inl ⟨e, mem_watchAdded.mpr (.inl he), hcovers, he ▸ hstays⟩
        by_cases hd' : d = path
        · exact hself _ rfl ⟨rfl, .inl hd'.symm⟩
        · obtain ⟨-, -, hsafe⟩ := hfits hpath (hallowed.above hbelow)
          rcases hsafe d hd hbelow hd' hallowed with hsafe | ⟨-, hrec⟩
          · exact hsafe.withWatch hnew _
          · exact hself _ rfl ⟨rfl, .inr ⟨hrec, hbelow⟩⟩
    · rename_i hpath
      exact h.appear fun d hd _ hbelow _ _ => absurd (h.tree.above hd hbelow) hpath

theorem Sound.step (h : Sound settings w) (step : Step) (hfits : Fits settings w step) :
    Sound settings (w.step settings step) := by
  cases step with
  | mkdir path => exact h.mkdir path
  | rmdir path => exact h.rmdir path
  | rename sides source target => exact h.rename sides source target
  | elsewhere event => exact h.elsewhere event
  | handle => exact h.handle hfits

theorem collectTargets_mem {t : Path × Bool}
    (h : t ∈ collectTargets settings dirs allowedDirs stack paths) : t.1 ∈ paths ∧
      t.2 = (settings.nativeRecursive && !hasIgnoredDescendants settings dirs allowedDirs t.1) := by
  induction paths generalizing stack with
  | nil => cases h
  | cons path paths ih =>
    rw [collectTargets] at h
    split at h
    · exact (ih h).imp_left (List.mem_cons_of_mem _)
    · rcases List.mem_cons.mp h with rfl | h
      · exact ⟨List.mem_cons_self, rfl⟩
      · exact (ih h).imp_left (List.mem_cons_of_mem _)

theorem collectTargets_covers (settings : Settings) (dirs allowedDirs : List Path)
    (stack : List (Path × Bool)) (hd : d ∈ paths) :
    ∃ t ∈ stack ++ collectTargets settings dirs allowedDirs stack paths,
      t.1 = d ∨ t.2 = true ∧ t.1 <+: d := by
  induction paths generalizing stack with
  | nil => cases hd
  | cons path paths ih =>
    rw [collectTargets]
    have hsub : (stack.dropWhile fun ancestor => !ancestor.1.isPrefixOf path) ⊆ stack :=
      (List.dropWhile_suffix _).subset
    generalize hstack : (stack.dropWhile fun ancestor => !ancestor.1.isPrefixOf path) = left at hsub
    split
    · rename_i hrec
      rcases List.mem_cons.mp hd with rfl | hd
      · obtain ⟨t, ht, hrec⟩ := (Option.any_eq_true _ _).mp hrec
        have habove := List.head?_dropWhile_not (fun ancestor : Path × Bool =>
          !ancestor.1.isPrefixOf d) stack
        rw [hstack, ht] at habove
        refine ⟨t, List.mem_append_left _ (hsub (List.mem_of_mem_head? ht)), .inr ⟨hrec, ?_⟩⟩
        simpa [List.isPrefixOf_iff_prefix] using habove
      · obtain ⟨t, ht, hcovers⟩ := ih left hd
        refine ⟨t, ?_, hcovers⟩
        rcases List.mem_append.mp ht with ht | ht
        · exact List.mem_append_left _ (hsub ht)
        · exact List.mem_append_right _ ht
    · rcases List.mem_cons.mp hd with rfl | hd
      · exact ⟨_, List.mem_append_right _ List.mem_cons_self, .inl rfl⟩
      · obtain ⟨t, ht, hcovers⟩ := ih (_ :: left) hd
        refine ⟨t, ?_, hcovers⟩
        rcases List.mem_append.mp ht with ht | ht
        · rcases List.mem_cons.mp ht with rfl | ht
          · exact List.mem_append_right _ List.mem_cons_self
          · exact List.mem_append_left _ (hsub ht)
        · exact List.mem_append_right _ (List.mem_cons_of_mem _ ht)

theorem installed (targets : List (Path × Bool)) (refused : Path → Bool) (watched : WatchedDirs)
    (hgranted : ∀ t ∈ targets, refused t.1 = false) :
    (∀ e ∈ targets.foldl (fun watched t =>
        if refused t.1 then watched else watched.insert t.1 t.2) watched,
      e ∈ watched ∨ e.alive = true ∧ (e.path, e.recursive) ∈ targets) ∧
    ∀ d, ((∃ e ∈ watched, e.path = d) ∨ ∃ t ∈ targets, t.1 = d) →
      ∃ e ∈ targets.foldl (fun watched t =>
        if refused t.1 then watched else watched.insert t.1 t.2) watched, e.path = d := by
  induction targets generalizing watched with
  | nil => exact ⟨fun e he => .inl he, fun d hd => hd.resolve_right fun ⟨_, ht, _⟩ => nomatch ht⟩
  | cons t targets ih =>
    have hmem : ∀ e, e ∈ watched.insert t.1 t.2 ↔ e ∈ watched ∧ e.path ≠ t.1 ∨ e = ⟨t.1, t.2, true⟩ := by
      intro e
      rw [WatchedDirs.insert, List.mem_append, List.mem_filter, List.mem_singleton, decide_eq_true_eq]
    obtain ⟨hsound, hcomplete⟩ := ih (watched.insert t.1 t.2)
      fun t' ht' => hgranted t' (List.mem_cons_of_mem _ ht')
    rw [List.foldl_cons, hgranted t List.mem_cons_self, if_neg Bool.false_ne_true]
    refine ⟨fun e he => ?_, fun d hd => hcomplete d ?_⟩
    · rcases hsound e he with he | ⟨halive, ht⟩
      · rcases (hmem e).mp he with ⟨he, -⟩ | rfl
        · exact .inl he
        · exact .inr ⟨rfl, List.mem_cons_self⟩
      · exact .inr ⟨halive, List.mem_cons_of_mem _ ht⟩
    · by_cases hdt : d = t.1
      · exact .inl ⟨_, (hmem _).mpr (.inr rfl), hdt.symm⟩
      · rcases hd with ⟨e, he, rfl⟩ | ⟨t', ht', rfl⟩
        · exact .inl ⟨e, (hmem e).mpr (.inl ⟨he, hdt⟩), rfl⟩
        · rcases List.mem_cons.mp ht' with rfl | ht'
          · exact absurd rfl hdt
          · exact .inr ⟨t', ht', rfl⟩

theorem mem_walkedDirs : d ∈ walkedDirs settings dirs ↔
    d ∈ dirs ∧ ∀ a ∈ d.inits, a ≠ [] → walkSkips settings a = false := by
  simp [walkedDirs, or_iff_not_imp_left]

theorem sound_asyncWatcher (htree : Tree dirs)
    (hgranted : ∀ t ∈ collectWatchDirectories settings dirs, settings.refused t.1 = false) :
    Sound settings (asyncWatcher settings dirs) := by
  obtain ⟨hsound, hcomplete⟩ :=
    installed (collectWatchDirectories settings dirs) settings.refused [] hgranted
  have htarget : ∀ e ∈ (asyncWatcher settings dirs).watched, e.alive = true ∧
      (e.path, e.recursive) ∈ collectWatchDirectories settings dirs :=
    fun e he => (hsound e he).resolve_left List.not_mem_nil
  have hwalked : ∀ t ∈ collectWatchDirectories settings dirs, t.1 ∈ walkedDirs settings dirs :=
    fun t ht => List.mem_mergeSort.mp (collectTargets_mem ht).1
  have hcovers : ∀ d ∈ walkedDirs settings dirs,
      ∃ e ∈ (asyncWatcher settings dirs).watched, Covers e d := by
    intro d hd
    obtain ⟨t, ht, hcovers⟩ := collectTargets_covers settings dirs _ []
      (List.mem_mergeSort.mpr hd)
    obtain ⟨e, he, hpath⟩ := hcomplete t.1 (.inr ⟨t, ht, rfl⟩)
    obtain ⟨halive, hmem⟩ := htarget e he
    have hrec : e.recursive = t.2 :=
      ((collectTargets_mem hmem).2.trans (by rw [hpath])).trans (collectTargets_mem ht).2.symm
    rw [← hpath, ← hrec] at hcovers
    exact ⟨e, he, halive, hcovers⟩
  refine ⟨htree, ?_, ?_, ?_, ?_⟩
  · exact fun e he _ => (mem_walkedDirs.mp (hwalked _ (htarget e he).2)).1
  · intro e he hended
    rw [(htarget e he).1] at hended
    cases hended
  · intro e he _ hroot _
    obtain ⟨hdir, hskips⟩ := mem_walkedDirs.mp (hwalked _ (htarget e he).2)
    have hparent : e.path.dropLast ∈ walkedDirs settings dirs := by
      refine mem_walkedDirs.mpr ⟨htree.parent _ hdir, fun a ha => hskips a ?_⟩
      rw [List.mem_inits] at ha ⊢
      exact ha.trans (dropLast_isPrefix e.path)
    obtain ⟨e', he', hcovers⟩ := hcovers _ hparent
    exact reports_of_covers he' hcovers hroot
  · intro d hd hallowed
    obtain ⟨e, he, hcovers⟩ := hcovers d (mem_walkedDirs.mpr ⟨hd, fun a ha hne => (hallowed a ha hne).2⟩)
    exact .inl ⟨e, he, hcovers, pending_nil _⟩

/-- Nothing is left to be done, and a directory that the filters let pass is watched, or lies below
a recursive watch: what is created in it will be reported. -/
def Covered (settings : Settings) (w : World) : Prop :=
  w.queue = [] → ∀ d ∈ w.dirs, Allowed settings d → (∃ e ∈ w.watched, Covers e d) ∧
    ∀ name, w.reports (d ++ [name]) = true

theorem Sound.covered (h : Sound settings w) : Covered settings w := by
  intro hqueue d hd hallowed
  rcases h.safe d hd hallowed with ⟨e, he, hcovers, -⟩ | ⟨a, -, -, hannounced⟩
  · refine ⟨⟨e, he, hcovers⟩, fun name => reports_of_covers he ?_ (List.append_ne_nil_of_right_ne_nil _ (List.cons_ne_nil _ _))⟩
    rwa [List.dropLast_concat]
  · rw [hqueue] at hannounced
    exact hannounced.elim

/-- In every run in which each new directory is handled as `Fits` asks, no directory is lost. -/
theorem run_covered (settings : Settings) (dirs : List Path) (htree : Tree dirs)
    (hgranted : ∀ t ∈ collectWatchDirectories settings dirs, settings.refused t.1 = false)
    (steps : List Step)
    (hfits : Run.Each (World.step settings) (Fits settings) (asyncWatcher settings dirs) steps) :
    Covered settings (Run.run (World.step settings) (asyncWatcher settings dirs) steps) :=
  (hfits.preserves (fun _ step h hok => h.step step hok) (sound_asyncWatcher htree hgranted)).covered

def plainSettings : Settings := ⟨false, fun _ => false, fun _ => false, fun _ => false⟩

theorem plain_start : asyncWatcher plainSettings [[]] = ⟨[[]], [⟨[], false, true⟩], []⟩ := by
  simp [asyncWatcher, collectWatchDirectories, walkedDirs, collectTargets, plainSettings,
    WatchedDirs.insert]

theorem run_covered_sample : Covered plainSettings (Run.run (World.step plainSettings)
    (asyncWatcher plainSettings [[]])
    [.mkdir ["a"], .handle, .mkdir ["a", "b"], .handle]) := by
  refine run_covered plainSettings [[]] ⟨by decide, by decide⟩ (fun _ _ => rfl) _ ?_
  rw [plain_start]
  have hfirst : ∀ d ∈ [["a"], []], ["a"] <+: d → d = ["a"] := by decide
  have hsecond : ∀ d ∈ [["a", "b"], ["a"], []], ["a", "b"] <+: d → d = ["a", "b"] := by decide
  exact ⟨trivial, fun _ _ => ⟨rfl, .inl (by decide),
    fun d hd hbelow hne => absurd (hfirst d hd hbelow) hne⟩, trivial, fun _ _ => ⟨rfl,
    .inl (by decide), fun d hd hbelow hne => absurd (hsecond d hd hbelow) hne⟩, trivial⟩

/-- A directory is made in one that is made before it, and before that one is watched. -/
theorem run_not_covered : ¬ ∀ (settings : Settings) (dirs : List Path), Tree dirs →
    (∀ t ∈ collectWatchDirectories settings dirs, settings.refused t.1 = false) →
    ∀ steps, Covered settings
      (Run.run (World.step settings) (asyncWatcher settings dirs) steps) := by
  intro h
  have hcovered := h plainSettings [[]] ⟨by decide, by decide⟩ (fun _ _ => rfl)
    [.mkdir ["a"], .mkdir ["a", "b"], .handle]
  rw [plain_start] at hcovered
  obtain ⟨⟨e, he, hcovers⟩, -⟩ := hcovered rfl ["a", "b"] (by decide) (by decide)
  revert e
  decide

end Cdesktop.FilesystemWatcher
