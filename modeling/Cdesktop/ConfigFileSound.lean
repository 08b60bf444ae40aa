import Cdesktop.ConfigFile
import Cdesktop.Strokes

/-! When the settings in the file are those in force. -/

namespace Cdesktop.ConfigFile
set_option autoImplicit true

def Task.written (lib : Libraries) : Task → Option (List UInt8)
  | .writing _ new pos => some ((lib.text new).take pos)
  | .saved _ new => some (lib.text new)
  | _ => none

def World.At (i : Nat) (task : Task) (w : World) : Prop := w.tasks[i]? = some task

structure Files (lib : Libraries) (w : World) : Prop where
  version : w.memory.configVersion = "v8"
  versions : ∀ i task config, w.At i task → task.pending = some config →
    config.configVersion = "v8"
  idle : (∀ i task, w.At i task → task.written lib = none) → w.file = some (lib.text w.memory)
  writes : ∀ i task bytes, w.At i task → task.written lib = some bytes → w.file = some bytes
  single : ∀ i j task task' bytes bytes', w.At i task → w.At j task' →
    task.written lib = some bytes → task'.written lib = some bytes' → i = j

def Task.Starts : Task → Prop
  | .handling old _ => old.relayEnabled = false
  | .resolving | .spawning _ => True
  | _ => False

structure Relays (w : World) : Prop where
  handling : ∀ i old new, w.At i (.handling old new) → new.relayEnabled = w.memory.relayEnabled
  spawning : ∀ i hostNickname, w.At i (.spawning hostNickname) → w.memory.relayEnabled = true
  toStart : w.memory.relayEnabled = true → w.relay = none → ∃ i task, w.At i task ∧ task.Starts
  toStop : w.memory.relayEnabled = false → w.relay ≠ none →
    ∃ i old new, w.At i (.handling old new) ∧ old.relayEnabled = true

theorem writeAt_take (text : List UInt8) (pos n : Nat) :
    writeAt (text.take pos) pos ((text.drop pos).take n) =
      text.take (pos + ((text.drop pos).take n).length) := by
  by_cases hnil : (text.drop pos).take n = []
  · rw [writeAt, if_pos hnil, hnil]
    rfl
  have hlt : pos < text.length := by
    by_contra hge
    rw [List.drop_of_length_le (by omega), List.take_nil] at hnil
    exact hnil rfl
  have hlen : (text.take pos).length = pos := by rw [List.length_take, Nat.min_eq_left hlt.le]
  have hrest : (text.take pos).drop (pos + ((text.drop pos).take n).length) = [] :=
    List.drop_of_length_le (by omega)
  have hmore : (text.drop pos).take n = (text.drop pos).take ((text.drop pos).take n).length := by
    rw [List.length_take, ← List.take_take, List.take_length]
  rw [writeAt, if_neg hnil, hlen, Nat.sub_self, List.replicate_zero, List.append_nil,
    List.take_take, Nat.min_self, hrest, List.append_nil, List.take_add, ← hmore]

theorem World.at_set {w w' : World} (h : w.At i task₀) (htasks : w'.tasks = w.tasks.set i task)
    (j : Nat) (task' : Task) :
    w'.At j task' ↔ (j = i ∧ task' = task) ∨ (j ≠ i ∧ w.At j task') := by
  have hlt : i < w.tasks.length := (List.getElem?_eq_some_iff.mp h).1
  simp only [World.At, htasks, List.getElem?_set]
  by_cases hij : i = j
  · rw [if_pos hij, if_pos hlt]
    constructor
    · exact fun heq => .inl ⟨hij.symm, (Option.some.inj heq).symm⟩
    · rintro (⟨-, rfl⟩ | ⟨hne, -⟩)
      · rfl
      · exact absurd hij.symm hne
  · rw [if_neg hij]
    constructor
    · exact fun heq => .inr ⟨fun h => hij h.symm, heq⟩
    · rintro (⟨heq, -⟩ | ⟨-, heq⟩)
      · exact absurd heq.symm hij
      · exact heq

theorem World.onlyAt_spec {w : World} (h : w.onlyAt i p = true) (hat : w.At j task) (hne : j ≠ i) :
    p task = false := by
  have hlt : j < w.tasks.length := (List.getElem?_eq_some_iff.mp hat).1
  have hall := of_decide_eq_true (List.all_eq_true.mp h j (List.mem_range.mpr hlt)) hne
  rw [show w.tasks[j]? = some task from hat, Option.all_some, Bool.not_eq_true'] at hall
  exact hall

theorem Files.versions_set {w w' : World} (h : Files lib w) (hat : w.At i task₀)
    (htasks : w'.tasks = w.tasks.set i task)
    (hversion : ∀ config, task.pending = some config → config.configVersion = "v8") (j : Nat)
    (task' : Task) (config : Config) (hat' : w'.At j task') (hpending : task'.pending = some config) :
    config.configVersion = "v8" := by
  obtain ⟨rfl, rfl⟩ | ⟨-, hold⟩ := (World.at_set hat htasks j task').mp hat'
  · exact hversion config hpending
  · exact h.versions j task' config hold hpending

theorem Files.goes (h : Files lib w) (hat : w.At i task₀) (w' : World)
    (htasks : w'.tasks = w.tasks.set i task) (hfile : w'.file = w.file)
    (hmemory : w'.memory = w.memory) (hwritten : task.written lib = task₀.written lib)
    (hversion : ∀ config, task.pending = some config → config.configVersion = "v8") :
    Files lib w' := by
  have hiff := World.at_set hat htasks
  -- Every task of the new world writes what one at the same place wrote before.
  have hback : ∀ j task', w'.At j task' → ∃ old, w.At j old ∧
      task'.written lib = old.written lib := by
    intro j task' hat'
    obtain ⟨rfl, rfl⟩ | ⟨-, hold⟩ := (hiff j task').mp hat'
    · exact ⟨task₀, hat, hwritten⟩
    · exact ⟨task', hold, rfl⟩
  apply Files.mk
  · rw [hmemory]
    exact h.version
  · exact h.versions_set hat htasks hversion
  · intro hidle
    rw [hfile, hmemory]
    apply h.idle
    intro j old hold
    by_cases hj : j = i
    · subst j
      have heq : old = task₀ := Option.some.inj (hold.symm.trans hat)
      rw [heq, ← hwritten]
      exact hidle i task ((hiff i task).mpr (.inl ⟨rfl, rfl⟩))
    · exact hidle j old ((hiff j old).mpr (.inr ⟨hj, hold⟩))
  · intro j task' bytes hat' hbytes
    obtain ⟨old, hold, heq⟩ := hback j task' hat'
    rw [hfile]
    exact h.writes j old bytes hold (heq ▸ hbytes)
  · intro j k task' task'' bytes bytes' hat' hat'' hbytes hbytes'
    obtain ⟨old, hold, heq⟩ := hback j task' hat'
    obtain ⟨old', hold', heq'⟩ := hback k task'' hat''
    exact h.single j k old old' bytes bytes' hold hold' (heq ▸ hbytes) (heq' ▸ hbytes')

theorem Files.saves (h : Files lib w) (hat : w.At i task₀) (w' : World)
    (htasks : w'.tasks = w.tasks.set i task) (hwritten : task.written lib = some bytes)
    (hfile : w'.file = some bytes) (hmemory : w'.memory = w.memory)
    (honly : ∀ j old, w.At j old → j ≠ i → old.written lib = none)
    (hversion : ∀ config, task.pending = some config → config.configVersion = "v8") :
    Files lib w' := by
  have hiff := World.at_set hat htasks
  have hthis : ∀ j task' bytes', w'.At j task' → task'.written lib = some bytes' →
      j = i ∧ bytes' = bytes := by
    intro j task' bytes' hat' hbytes
    obtain ⟨rfl, rfl⟩ | ⟨hne, hold⟩ := (hiff j task').mp hat'
    · exact ⟨rfl, Option.some.inj (hbytes.symm.trans hwritten)⟩
    · rw [honly j task' hold hne] at hbytes
      cases hbytes
  apply Files.mk
  · rw [hmemory]
    exact h.version
  · exact h.versions_set hat htasks hversion
  · intro hidle
    have hnone := hidle i task ((hiff i task).mpr (.inl ⟨rfl, rfl⟩))
    rw [hwritten] at hnone
    cases hnone
  · intro j task' bytes' hat' hbytes
    rw [(hthis j task' bytes' hat' hbytes).2]
    exact hfile
  · intro j k task' task'' bytes' bytes'' hat' hat'' hbytes hbytes'
    exact (hthis j task' bytes' hat' hbytes).1.trans (hthis k task'' bytes'' hat'' hbytes').1.symm

theorem Files.replaces (h : Files lib w) (hat : w.At i (.saved old new)) :
    Files lib { w.setTask i (.handling old new) with memory := new } := by
  have hiff : ∀ j task', World.At j task' { w.setTask i (.handling old new) with memory := new } ↔
      (j = i ∧ task' = .handling old new) ∨ (j ≠ i ∧ w.At j task') :=
    World.at_set hat rfl
  have hnone : ∀ j task', World.At j task' { w.setTask i (.handling old new) with memory := new } →
      task'.written lib = none := by
    intro j task' hat'
    obtain ⟨-, rfl⟩ | ⟨hne, hold⟩ := (hiff j task').mp hat'
    · rfl
    · cases hbytes : task'.written lib with
      | none => rfl
      | some bytes => exact absurd (h.single j i _ _ _ _ hold hat hbytes rfl) hne
  apply Files.mk
  · exact h.versions i _ new hat rfl
  · exact h.versions_set hat rfl fun config hpending => by cases hpending
  · exact fun _ => h.writes i _ _ hat rfl
  · intro j task' bytes hat' hbytes
    rw [hnone j task' hat'] at hbytes
    cases hbytes
  · intro j k task' task'' bytes bytes' hat' _ hbytes
    rw [hnone j task' hat'] at hbytes
    cases hbytes

theorem Relays.goes (h : Relays w) (hat : w.At i task₀) (w' : World)
    (htasks : w'.tasks = w.tasks.set i task)
    (hmemory : w'.memory.relayEnabled = w.memory.relayEnabled) (hrelay : w'.relay = w.relay)
    (hhandling : ∀ old new, task = .handling old new → new.relayEnabled = w.memory.relayEnabled)
    (hspawning : ∀ hostNickname, task = .spawning hostNickname → w.memory.relayEnabled = true)
    (hstarts : task₀.Starts → w.memory.relayEnabled = true → task.Starts)
    (hstops : ∀ old new, task₀ = .handling old new → old.relayEnabled = true →
      w.memory.relayEnabled = true) : Relays w' := by
  have hiff := World.at_set hat htasks
  apply Relays.mk
  · intro j old new hat'
    rw [hmemory]
    obtain ⟨-, heq⟩ | ⟨-, hold⟩ := (hiff j _).mp hat'
    · exact hhandling old new heq.symm
    · exact h.handling j old new hold
  · intro j hostNickname hat'
    rw [hmemory]
    obtain ⟨-, heq⟩ | ⟨-, hold⟩ := (hiff j _).mp hat'
    · exact hspawning hostNickname heq.symm
    · exact h.spawning j hostNickname hold
  · intro henabled hnone
    rw [hmemory] at henabled
    rw [hrelay] at hnone
    obtain ⟨j, task', hold, hstart⟩ := h.toStart henabled hnone
    by_cases hj : j = i
    · subst j
      have heq : task' = task₀ := Option.some.inj (hold.symm.trans hat)
      exact ⟨i, task, (hiff i task).mpr (.inl ⟨rfl, rfl⟩), hstarts (heq ▸ hstart) henabled⟩
    · exact ⟨j, task', (hiff j task').mpr (.inr ⟨hj, hold⟩), hstart⟩
  · intro henabled hsome
    rw [hmemory] at henabled
    rw [hrelay] at hsome
    obtain ⟨j, old, new, hold, hstop⟩ := h.toStop henabled hsome
    by_cases hj : j = i
    · subst j
      have heq : Task.handling old new = task₀ := Option.some.inj (hold.symm.trans hat)
      have htrue := hstops old new heq.symm hstop
      rw [henabled] at htrue
      cases htrue
    · exact ⟨j, old, new, (hiff j _).mpr (.inr ⟨hj, hold⟩), hstop⟩

theorem Relays.quiet (h : Relays w) (hat : w.At i task₀) (w' : World)
    (htasks : w'.tasks = w.tasks.set i task)
    (hmemory : w'.memory.relayEnabled = w.memory.relayEnabled) (hrelay : w'.relay = w.relay)
    (hbefore : task₀.relays = false) (hafter : task.relays = false) : Relays w' := by
  apply h.goes hat w' htasks hmemory hrelay
  · intro old new heq
    rw [heq] at hafter
    cases hafter
  · intro hostNickname heq
    rw [heq] at hafter
    cases hafter
  · intro hstarts
    cases task₀ <;> first | exact hstarts.elim | cases hbefore
  · intro old new heq
    rw [heq] at hbefore
    cases hbefore

theorem Relays.replaces (h : Relays w) (hat : w.At i (.saved old new))
    (hold : w.memory.relayEnabled = old.relayEnabled)
    (honly : new.relayEnabled = old.relayEnabled ∨ w.onlyAt i Task.relays = true) :
    Relays { w.setTask i (.handling old new) with memory := new } := by
  have hiff : ∀ j task', World.At j task' { w.setTask i (.handling old new) with memory := new } ↔
      (j = i ∧ task' = .handling old new) ∨ (j ≠ i ∧ w.At j task') :=
    World.at_set hat rfl
  -- What another task is to do with the relay, the new settings do not change.
  have hsame : ∀ j task', j ≠ i → w.At j task' → task'.relays = true →
      new.relayEnabled = w.memory.relayEnabled := by
    intro j task' hne hat' hrelays
    obtain hkeeps | honly := honly
    · exact hkeeps.trans hold.symm
    · rw [World.onlyAt_spec honly hat' hne] at hrelays
      cases hrelays
  apply Relays.mk
  · intro j old' new' hat'
    obtain ⟨-, heq⟩ | ⟨hne, hother⟩ := (hiff j _).mp hat'
    · cases heq
      rfl
    · exact (h.handling j old' new' hother).trans (hsame j _ hne hother rfl).symm
  · intro j hostNickname hat'
    obtain ⟨-, heq⟩ | ⟨hne, hother⟩ := (hiff j _).mp hat'
    · cases heq
    · exact (hsame j _ hne hother rfl).trans (h.spawning j hostNickname hother)
  · intro henabled hnone
    by_cases hkeeps : new.relayEnabled = old.relayEnabled
    · obtain ⟨j, task', hother, hstart⟩ := h.toStart ((hold.trans hkeeps.symm).trans henabled) hnone
      have hne : j ≠ i := by
        rintro rfl
        have heq : task' = .saved old new := Option.some.inj (hother.symm.trans hat)
        rw [heq] at hstart
        exact hstart
      exact ⟨j, task', (hiff j task').mpr (.inr ⟨hne, hother⟩), hstart⟩
    · refine ⟨i, _, (hiff i _).mpr (.inl ⟨rfl, rfl⟩), ?_⟩
      apply Bool.eq_false_iff.mpr
      intro htrue
      exact hkeeps (henabled.trans htrue.symm)
  · intro henabled hsome
    by_cases hkeeps : new.relayEnabled = old.relayEnabled
    · obtain ⟨j, old', new', hother, hstop⟩ :=
        h.toStop ((hold.trans hkeeps.symm).trans henabled) hsome
      have hne : j ≠ i := by
        rintro rfl
        have heq : Task.handling old' new' = .saved old new :=
          Option.some.inj (hother.symm.trans hat)
        cases heq
      exact ⟨j, old', new', (hiff j _).mpr (.inr ⟨hne, hother⟩), hstop⟩
    · refine ⟨i, old, new, (hiff i _).mpr (.inl ⟨rfl, rfl⟩), ?_⟩
      apply Bool.eq_true_of_not_eq_false
      intro hfalse
      exact hkeeps (henabled.trans hfalse.symm)

theorem Relays.settles (h : Relays w) (hat : w.At i task₀) (w' : World)
    (htasks : w'.tasks = w.tasks.set i .done) (hmemory : w'.memory = w.memory)
    (hrelay : w'.relay.isSome = w.memory.relayEnabled) : Relays w' := by
  have hiff := World.at_set hat htasks
  apply Relays.mk
  · intro j old new hat'
    rw [hmemory]
    obtain ⟨-, heq⟩ | ⟨-, hold⟩ := (hiff j _).mp hat'
    · cases heq
    · exact h.handling j old new hold
  · intro j hostNickname hat'
    rw [hmemory]
    obtain ⟨-, heq⟩ | ⟨-, hold⟩ := (hiff j _).mp hat'
    · cases heq
    · exact h.spawning j hostNickname hold
  · intro henabled hnone
    rw [hmemory, ← hrelay, hnone] at henabled
    cases henabled
  · intro henabled hsome
    rw [hmemory, ← hrelay, Option.isSome_eq_false_iff, Option.isNone_iff_eq_none] at henabled
    exact absurd henabled hsome

theorem written_of_saves {task : Task} (h : task.saves = false) : task.written lib = none := by
  cases task <;> first | rfl | cases h

theorem Files.advance (h : Files lib w) (hat : w.At i task)
    (hok : w.ok lib (.step i move) = true) : Files lib (w.advance lib userName i move task) := by
  have htasks : w.tasks[i]? = some task := hat
  simp only [World.ok, htasks] at hok
  cases task with
  | received new =>
    simp only [World.advance]
    split
    · rename_i hgo
      rw [hgo] at hok
      refine h.goes hat _ rfl rfl rfl ?_ ?_
      · split <;> rfl
      · intro config hpending
        split at hpending
        · rename_i hvalid
          cases hpending
          exact of_decide_eq_true hok hvalid
        · cases hpending
    · exact h
  | saving old new =>
    cases move with
    | go =>
      refine h.saves hat _ rfl rfl rfl rfl ?_ ?_
      · intro j other hother hne
        exact written_of_saves (World.onlyAt_spec hok hother hne)
      · intro config hpending
        cases hpending
        exact h.versions i _ new hat rfl
    | fail => exact h.goes hat _ rfl rfl rfl rfl fun config hpending => by cases hpending
    | write | resolve => exact h
  | writing old new pos =>
    have hnew : new.configVersion = "v8" := h.versions i _ new hat rfl
    have hfile : w.file = some ((lib.text new).take pos) := h.writes i _ _ hat rfl
    have honly : ∀ j other, w.At j other → j ≠ i → other.written lib = none := by
      intro j other hother hne
      cases hbytes : other.written lib with
      | none => rfl
      | some bytes => exact absurd (h.single j i _ _ _ _ hother hat hbytes rfl) hne
    cases move with
    | go =>
      simp only [World.advance]
      split
      · rename_i hpos
        refine h.goes hat _ rfl rfl rfl ?_ ?_
        · simp only [Task.written]
          rw [hpos, List.take_length]
        · intro config hpending
          cases hpending
          exact hnew
      · exact h
    | write n =>
      refine h.saves hat _ rfl rfl ?_ rfl honly ?_
      · simp only [World.advance]
        rw [hfile, Option.getD_some, writeAt_take]
      · intro config hpending
        cases hpending
        exact hnew
    | fail =>
      have hpos := of_decide_eq_true hok
      simp only [World.advance]
      rw [if_pos hpos]
      exact h
    | resolve => exact h
  | saved old new =>
    simp only [World.advance]
    split
    · exact h.replaces hat
    · exact h
  | handling old new =>
    simp only [World.advance]
    split
    · unfold World.handle
      repeat' split
      all_goals exact h.goes hat _ rfl rfl rfl rfl fun config hpending => by cases hpending
    · exact h
  | resolving =>
    simp only [World.advance]
    repeat' split
    all_goals first
      | exact h
      | exact h.goes hat _ rfl rfl rfl rfl fun config hpending => by cases hpending
  | spawning hostNickname =>
    simp only [World.advance]
    split
    · exact h.goes hat _ rfl rfl rfl rfl fun config hpending => by cases hpending
    · exact h
  | done => exact h

/-- `handle_config_events` does what the memory says, for its settings are those in force. -/
theorem Relays.handle (h : Relays w) (hat : w.At i (.handling old new)) :
    Relays (w.handle userName i old new) := by
  have hmemory : new.relayEnabled = w.memory.relayEnabled := h.handling i old new hat
  cases hold : old.relayEnabled with
  | false =>
    cases hnew : new.relayEnabled with
    | false =>
      simp only [World.handle, hold, hnew]
      refine h.goes hat _ rfl rfl rfl (fun _ _ heq => by cases heq)
        (fun _ heq => by cases heq) ?_ ?_
      · intro _ henabled
        rw [← hmemory, hnew] at henabled
        cases henabled
      · intro _ _ heq htrue
        cases heq
        rw [hold] at htrue
        cases htrue
    | true =>
      simp only [World.handle, hold, hnew]
      refine h.goes hat _ rfl rfl rfl (fun _ _ heq => by cases heq)
        (fun _ heq => by cases heq) (fun _ _ => trivial) ?_
      intro _ _ heq htrue
      cases heq
      rw [hold] at htrue
      cases htrue
  | true =>
    have hstarts : ¬(Task.handling old new).Starts := by
      intro hstart
      rw [Task.Starts, hold] at hstart
      cases hstart
    cases hnew : new.relayEnabled with
    | false =>
      simp only [World.handle, hold, hnew]
      refine h.settles hat _ rfl rfl ?_
      rw [← hmemory, hnew]
      rfl
    | true =>
      simp only [World.handle, hold, hnew]
      have hon : w.memory.relayEnabled = true := hmemory.symm.trans hnew
      split
      · exact h.goes hat _ rfl rfl rfl (fun _ _ heq => by cases heq) (fun _ heq => by cases heq)
          (fun hstart => absurd hstart hstarts) fun _ _ _ _ => hon
      · exact h.goes hat _ rfl rfl rfl (fun _ _ heq => by cases heq) (fun _ heq => by cases heq)
          (fun hstart => absurd hstart hstarts) fun _ _ _ _ => hon

theorem Relays.advance (h : Relays w) (hat : w.At i task)
    (hok : w.ok lib (.step i move) = true) : Relays (w.advance lib userName i move task) := by
  have htasks : w.tasks[i]? = some task := hat
  simp only [World.ok, htasks] at hok
  cases task with
  | received new =>
    simp only [World.advance]
    split
    · refine h.quiet hat _ rfl rfl rfl rfl ?_
      split <;> rfl
    · exact h
  | saving old new =>
    cases move with
    | go | fail => exact h.quiet hat _ rfl rfl rfl rfl rfl
    | write | resolve => exact h
  | writing old new pos =>
    cases move with
    | go | fail =>
      simp only [World.advance]
      split
      all_goals first
        | exact h
        | exact h.quiet hat _ rfl rfl rfl rfl rfl
    | write => exact h.quiet hat _ rfl rfl rfl rfl rfl
    | resolve => exact h
  | saved old new =>
    simp only [World.advance]
    split
    · rename_i hgo
      rw [hgo] at hok
      obtain ⟨hold, honly⟩ := of_decide_eq_true hok
      exact h.replaces hat hold honly
    · exact h
  | handling old new =>
    simp only [World.advance]
    split
    · exact h.handle hat
    · exact h
  | resolving =>
    cases move with
    | resolve available =>
      simp only [World.advance]
      split
      · rename_i hon
        obtain ⟨henabled, -⟩ := Bool.and_eq_true_iff.mp hon
        exact h.goes hat _ rfl rfl rfl (fun _ _ heq => by cases heq) (fun _ _ => henabled)
          (fun _ _ => trivial) fun _ _ heq => by cases heq
      · rename_i hoff
        refine h.goes hat _ rfl rfl rfl (fun _ _ heq => by cases heq)
          (fun _ heq => by cases heq) ?_ (fun _ _ heq => by cases heq)
        intro _ henabled
        exact absurd (Bool.and_eq_true_iff.mpr ⟨henabled, of_decide_eq_true hok henabled⟩) hoff
    | go | fail | write => exact h
  | spawning hostNickname =>
    simp only [World.advance]
    split
    · refine h.settles hat _ rfl rfl ?_
      exact (h.spawning i hostNickname hat).symm
    · exact h
  | done => exact h

/-- What holds of the file while the server does not serve, and of all while it does. -/
def Inv (lib : Libraries) (w : World) : Prop :=
  match w.server with
  | .up => Files lib w ∧ Relays w
  | .down configs => w.tasks = [] ∧ w.relay = none ∧ loadConfigFromFile lib w.file ∈ configs
  | .booting loaded config pos => w.tasks = [] ∧ w.relay = none ∧ config.configVersion = "v8" ∧
      match pos with
      | none => loadConfigFromFile lib w.file = loaded
      | some pos => w.file = some ((lib.text config).take pos)

theorem Inv.of_up (hserver : w.server = .up) (hfiles : Files lib w) (hrelays : Relays w) :
    Inv lib w := by
  rw [Inv, hserver]
  exact ⟨hfiles, hrelays⟩

theorem readConfig_text (config : Config) :
    readConfig (some (Libraries.text lib config)) = some (lib.toStringPretty config) := by
  rw [readConfig, Option.bind_some, Libraries.text, fromUtf8_utf8]

theorem parse_text (hlib : lib.Lawful) (h : config.configVersion = "v8") :
    Config.parse lib (lib.toStringPretty config) = some config := by
  rw [Config.parse, hlib.roundTrip, Option.filter_some, if_pos (decide_eq_true h)]

theorem load_text (hlib : lib.Lawful) (h : config.configVersion = "v8") :
    loadConfigFromFile lib (some (lib.text config)) = config := by
  rw [loadConfigFromFile, readConfig_text]
  simp only [Config.from, parse_text hlib h, Option.getD_some]

theorem load_version (hlib : lib.Lawful) (file : Option (List UInt8)) :
    (loadConfigFromFile lib file).configVersion = "v8" := by
  unfold loadConfigFromFile
  split
  · rename_i raw _
    unfold Config.from
    cases hparse : Config.parse lib raw with
    | none => exact hlib.upgrades raw
    | some config =>
      obtain ⟨-, hversion⟩ := Option.filter_eq_some_iff.mp hparse
      exact of_decide_eq_true hversion
  · rfl

theorem started_version (config : Config) :
    (config.started recommended appVersion).configVersion = config.configVersion := by
  unfold Config.started
  split <;> (simp only; split <;> rfl)

theorem Files.crashed (hlib : lib.Lawful) (h : Files lib w)
    (hok : (w.tasks.all fun task => !task.torn lib) = true) :
    loadConfigFromFile lib w.file ∈ w.memory :: w.tasks.filterMap Task.pending := by
  by_cases hidle : ∀ i task, w.At i task → task.written lib = none
  · rw [h.idle hidle, load_text hlib h.version]
    exact List.mem_cons_self
  · push Not at hidle
    obtain ⟨i, task, hat, hwritten⟩ := hidle
    have hmem : task ∈ w.tasks := List.mem_of_getElem? hat
    have hwhole := List.all_eq_true.mp hok task hmem
    have hnew : ∃ config, task.pending = some config ∧ w.file = some (lib.text config) := by
      cases task with
      | writing old new pos =>
        refine ⟨new, rfl, ?_⟩
        rw [h.writes i _ _ hat rfl]
        have hpos : pos = (lib.text new).length := by simpa [Task.torn] using hwhole
        rw [hpos, List.take_length]
      | saved old new => exact ⟨new, rfl, h.writes i _ _ hat rfl⟩
      | _ => exact absurd rfl hwritten
    obtain ⟨config, hpending, hfile⟩ := hnew
    rw [hfile, load_text hlib (h.versions i task config hat hpending)]
    exact List.mem_cons_of_mem _ (List.mem_filterMap.mpr ⟨task, hmem, hpending⟩)

theorem at_concat {w : World} (h : World.At i task { w with tasks := w.tasks ++ [added] }) :
    w.At i task ∨ task = added := by
  simp only [World.At, List.getElem?_append] at h
  split at h
  · exact .inl h
  · right
    exact List.mem_singleton.mp (List.mem_of_getElem? h)

theorem at_before {w : World} (h : w.At i task) (added : Task) :
    World.At i task { w with tasks := w.tasks ++ [added] } := by
  have hlt : i < w.tasks.length := (List.getElem?_eq_some_iff.mp h).1
  rw [World.At, List.getElem?_append_left hlt]
  exact h

theorem Files.request (h : Files lib w) (new : Config) :
    Files lib { w with tasks := w.tasks ++ [.received new] } := by
  apply Files.mk
  · exact h.version
  · intro i task config hat hpending
    obtain hold | rfl := at_concat hat
    · exact h.versions i task config hold hpending
    · cases hpending
  · exact fun hidle => h.idle fun i task hat => hidle i task (at_before hat _)
  · intro i task bytes hat hbytes
    obtain hold | rfl := at_concat hat
    · exact h.writes i task bytes hold hbytes
    · cases hbytes
  · intro i j task task' bytes bytes' hat hat' hbytes hbytes'
    obtain hold | rfl := at_concat hat
    · obtain hold' | rfl := at_concat hat'
      · exact h.single i j task task' bytes bytes' hold hold' hbytes hbytes'
      · cases hbytes'
    · cases hbytes

theorem Relays.request (h : Relays w) (new : Config) :
    Relays { w with tasks := w.tasks ++ [.received new] } := by
  apply Relays.mk
  · intro i old new' hat
    obtain hold | heq := at_concat hat
    · exact h.handling i old new' hold
    · cases heq
  · intro i hostNickname hat
    obtain hold | heq := at_concat hat
    · exact h.spawning i hostNickname hold
    · cases heq
  · intro henabled hnone
    obtain ⟨i, task, hat, hstarts⟩ := h.toStart henabled hnone
    exact ⟨i, task, at_before hat _, hstarts⟩
  · intro henabled hsome
    obtain ⟨i, old, new', hat, hstop⟩ := h.toStop henabled hsome
    exact ⟨i, old, new', at_before hat _, hstop⟩

theorem Inv.booted (w : World) (hserver : w.server = .up) (htasks : w.tasks = [.resolving])
    (hrelay : w.relay = none) (hversion : w.memory.configVersion = "v8")
    (hfile : w.file = some (lib.text w.memory)) : Inv lib w := by
  have hat : ∀ i task, w.At i task → task = .resolving := by
    intro i task hat
    rw [World.At, htasks] at hat
    exact List.mem_singleton.mp (List.mem_of_getElem? hat)
  apply Inv.of_up hserver
  · apply Files.mk
    · exact hversion
    · intro i task config hi hpending
      rw [hat i task hi] at hpending
      cases hpending
    · exact fun _ => hfile
    · intro i task bytes hi hbytes
      rw [hat i task hi] at hbytes
      cases hbytes
    · intro i j task task' bytes bytes' hi _ hbytes
      rw [hat i task hi] at hbytes
      cases hbytes
  · apply Relays.mk
    · intro i old new hi
      cases hat i _ hi
    · intro i hostNickname hi
      cases hat i _ hi
    · intro _ _
      refine ⟨0, .resolving, ?_, trivial⟩
      rw [World.At, htasks]
      rfl
    · exact fun _ hsome => absurd hrelay hsome

theorem advance_server (task : Task) :
    (World.advance lib userName i move w task).server = w.server := by
  cases task with
  | handling old new =>
    simp only [World.advance, World.handle]
    repeat' split
    all_goals rfl
  | done => rfl
  | _ =>
    simp only [World.advance]
    repeat' split
    all_goals rfl

theorem Inv.boot (h : Inv lib w) (hok : w.ok lib (.boot move) = true)
    (hserver : w.server = .booting loaded config pos) :
    Inv lib (w.step lib userName (.boot move)) := by
  have hinv := h
  rw [Inv, hserver] at h
  obtain ⟨htasks, hrelay, hversion, hfile⟩ := h
  simp only [World.step, hserver]
  cases pos with
  | none =>
    cases move with
    | go => exact ⟨htasks, hrelay, hversion, rfl⟩
    | fail => exact ⟨rfl, rfl, List.mem_cons.mpr (.inl hfile)⟩
    | write | resolve => exact hinv
  | some pos =>
    simp only at hfile
    cases move with
    | go =>
      simp only
      split
      · rename_i hpos
        rw [hpos, List.take_length] at hfile
        exact Inv.booted _ rfl rfl hrelay hversion hfile
      · exact hinv
    | write n =>
      refine ⟨htasks, hrelay, hversion, ?_⟩
      simp only
      rw [hfile, Option.getD_some, writeAt_take]
    | fail =>
      simp only
      split
      · exact hinv
      · rename_i hpos
        simp only [World.ok, hserver] at hok
        exact absurd (of_decide_eq_true hok) hpos
    | resolve => exact hinv

theorem Inv.crash (hlib : lib.Lawful) (h : Inv lib w) (hok : w.ok lib .crash = true) :
    Inv lib (w.step lib userName .crash) := by
  simp only [World.step]
  simp only [World.ok] at hok
  cases hserver : w.server with
  | up =>
    rw [hserver] at hok
    rw [Inv, hserver] at h
    exact ⟨rfl, rfl, h.1.crashed hlib hok⟩
  | down => exact h
  | booting loaded config pos =>
    rw [Inv, hserver] at h
    obtain ⟨-, -, hversion, hfile⟩ := h
    rw [hserver] at hok
    refine ⟨rfl, rfl, ?_⟩
    cases pos with
    | none => exact List.mem_cons.mpr (.inl hfile)
    | some pos =>
      simp only at hfile
      have hpos : pos = (lib.text config).length := of_decide_eq_true hok
      show loadConfigFromFile lib w.file ∈ [loaded, config]
      rw [hfile, hpos, List.take_length, load_text hlib hversion]
      exact List.mem_cons_of_mem _ (List.mem_singleton.mpr rfl)

theorem Inv.step (hlib : lib.Lawful) (h : Inv lib w) (hok : w.ok lib event = true) :
    Inv lib (w.step lib userName event) := by
  cases event with
  | request new =>
    simp only [World.step]
    split
    · rename_i hserver
      rw [Inv, hserver] at h
      exact .of_up hserver (h.1.request new) (h.2.request new)
    · exact h
  | step i move =>
    simp only [World.step]
    split
    · rename_i task hat
      cases hserver : w.server with
      | up =>
        rw [Inv, hserver] at h
        exact .of_up ((advance_server task).trans hserver) (h.1.advance hat hok)
          (h.2.advance hat hok)
      | down configs =>
        rw [Inv, hserver] at h
        rw [h.1] at hat
        cases hat
      | booting loaded config pos =>
        rw [Inv, hserver] at h
        rw [h.1] at hat
        cases hat
    · exact h
  | crash => exact h.crash hlib hok
  | load recommended appVersion =>
    simp only [World.step]
    split
    · rename_i configs hserver
      rw [Inv, hserver] at h
      obtain ⟨htasks, hrelay, -⟩ := h
      refine ⟨htasks, hrelay, ?_, rfl⟩
      rw [started_version]
      exact load_version hlib w.file
    · exact h
  | boot move =>
    cases hserver : w.server with
    | booting loaded config pos => exact h.boot hok hserver
    | up | down =>
      simp only [World.step, hserver]
      exact h

theorem Inv.sound (hlib : lib.Lawful) (h : Inv lib w) : Sound lib w := by
  unfold Sound
  unfold Inv at h
  cases hserver : w.server with
  | up =>
    rw [hserver] at h
    obtain ⟨hfiles, hrelays⟩ := h
    intro hdone
    have hat : ∀ i task, w.At i task → task = .done :=
      fun i task hi => hdone task (List.mem_of_getElem? hi)
    apply And.intro
    · rw [hfiles.idle fun i task hi => by rw [hat i task hi]; rfl, readConfig_text]
      exact parse_text hlib hfiles.version
    · cases henabled : w.memory.relayEnabled with
      | true =>
        rw [Option.isSome_iff_ne_none]
        intro hnone
        obtain ⟨i, task, hi, hstarts⟩ := hrelays.toStart henabled hnone
        rw [hat i task hi] at hstarts
        exact hstarts
      | false =>
        rw [Option.isSome_eq_false_iff, Option.isNone_iff_eq_none]
        by_contra hsome
        obtain ⟨i, old, new, hi, -⟩ := hrelays.toStop henabled hsome
        cases hat i _ hi
  | down configs =>
    rw [hserver] at h
    exact h.2.2
  | booting => trivial

theorem settings_in_force (lib : Libraries) (userName : String) (file : Option (List UInt8))
    (events : List Event) (hlib : lib.Lawful)
    (hok : Run.Each (World.step lib userName) (fun w event => w.ok lib event = true)
      (.new lib file) events) :
    Sound lib (Run.run (World.step lib userName) (.new lib file) events) := by
  have hnew : Inv lib (.new lib file) := ⟨rfl, rfl, List.mem_singleton.mpr rfl⟩
  have hinv : Inv lib (Run.run (World.step lib userName) (.new lib file) events) :=
    Run.Each.preserves (fun _ _ h hok => h.step hlib hok) hnew hok
  exact hinv.sound hlib

namespace Sample

instance : Encodable BaseCodingAgent :=
  Encodable.ofLeftInverse (fun agent => agent.ctorIdx)
    (fun n => [.claudeCode, .amp, .gemini, .codex, .opencode, .cursorAgent, .qwenCode, .copilot,
      .droid, .deepseekTui, .hermes].getD n .amp)
    fun agent => by cases agent <;> rfl

instance : Encodable Config :=
  Encodable.ofLeftInverse
    (fun config => (config.configVersion, config.executorProfile.executor,
      config.executorProfile.variant, config.onboardingAcknowledged, config.gitBranchPrefix,
      config.lastAppVersion, config.showReleaseNotes, config.relayEnabled, config.hostNickname))
    (fun fields => ⟨fields.1, ⟨fields.2.1, fields.2.2.1⟩, fields.2.2.2.1, fields.2.2.2.2.1,
      fields.2.2.2.2.2.1, fields.2.2.2.2.2.2.1, fields.2.2.2.2.2.2.2.1, fields.2.2.2.2.2.2.2.2⟩)
    fun _ => rfl

def on : Config := (default : Config).started none "0.1"

def off : Config := { on with relayEnabled := false }

/-- The fields that are modelled, with the values that both settings share. -/
def json (config : Config) : String :=
  "\x7b\n  \"config_version\": \"v8\",\n  \"executor_profile\": \x7b\n    \"executor\": \"CLAUDE_CODE\"\n" ++
    "  \x7d,\n  \"onboarding_acknowledged\": false,\n  \"last_app_version\": \"0.1\",\n" ++
    "  \"show_release_notes\": false,\n  \"git_branch_prefix\": \"cdt\",\n  \"relay_enabled\": " ++
    toString config.relayEnabled ++ ",\n  \"host_nickname\": null\n\x7d"

def texts : List (Config × String) := [on, off].map fun config => (config, json config)

def libraries : Libraries :=
  { toStringPretty := Strokes.text texts
    fromStr := Strokes.read texts
    fromPreviousVersion := fun _ => default
    nameIsValid := fun name => name = "cdt/x" }

theorem texts_good : Strokes.Good texts := by
  constructor
  · decide +kernel
  · decide +kernel

theorem libraries_lawful : libraries.Lawful :=
  ⟨fun config => Strokes.read_text texts_good config, fun _ => rfl⟩

def boot : List Event :=
  [.load none "0.1", .boot .go, .boot (.write 300), .boot .go, .step 0 (.resolve true),
    .step 0 .go]

end Sample

set_option maxRecDepth 2000 in
theorem settings_in_force_sample :
    Sound Sample.libraries (Run.run (World.step Sample.libraries "host") (.new Sample.libraries none)
      (Sample.boot ++ [.request Sample.off, .step 1 .go, .step 1 .go, .step 1 (.write 9),
        .step 1 (.write 300), .step 1 .go, .step 1 .go, .step 1 .go, .crash, .load none "0.1"])) := by
  apply settings_in_force
  · exact Sample.libraries_lawful
  · decide +kernel

/-- Of two updates the first to write the file is the last to take effect, a save fails when a part
of the text is written, and the server stops then. -/
theorem settings_not_in_force :
    ¬Sound Sample.libraries (Run.run (World.step Sample.libraries "host") (.new Sample.libraries none)
        (Sample.boot ++ [.request Sample.off, .request Sample.on, .step 1 .go, .step 2 .go,
          .step 1 .go, .step 1 (.write 300), .step 1 .go, .step 2 .go, .step 2 (.write 300),
          .step 2 .go, .step 2 .go, .step 2 .go, .step 1 .go, .step 1 .go])) ∧
      ¬Sound Sample.libraries (Run.run (World.step Sample.libraries "host")
        (.new Sample.libraries none) (Sample.boot ++ [.request Sample.off, .step 1 .go, .step 1 .go,
          .step 1 (.write 9), .step 1 .fail])) ∧
      ¬Sound Sample.libraries (Run.run (World.step Sample.libraries "host")
        (.new Sample.libraries none) (Sample.boot ++ [.request Sample.off, .step 1 .go, .step 1 .go,
          .step 1 (.write 9), .crash])) := by
  decide +kernel

end Cdesktop.ConfigFile
