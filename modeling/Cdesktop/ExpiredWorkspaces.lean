import Mathlib.Data.String.Basic
import Mathlib.Data.List.Nodup
import Cdesktop.Sql

/-! The query for the workspaces whose worktree has outlived its retention. -/

namespace Cdesktop.ExpiredWorkspaces
open Sql
set_option autoImplicit true

/-- A time as a column has it, and what `datetime` reads in it, in milliseconds. -/
structure Stamp where
  text : String
  millis : Int
deriving DecidableEq

/-- `datetime`, which drops the parts of a second. -/
def Stamp.datetime (t : Stamp) : Int := t.millis / 1000

structure Workspace where
  id : Nat
  containerRef : Option String
  updatedAt : Stamp
  archived : Bool
  worktreeDeleted : Bool

structure Session where
  id : Nat
  workspaceId : Nat

structure ExecutionProcess where
  sessionId : Nat
  completedAt : Option Stamp

structure Database where
  workspaces : List Workspace
  sessions : List Session
  executionProcesses : List ExecutionProcess
  /-- `id` is the primary key. -/
  nodup : (workspaces.map (·.id)).Nodup

/-- A row of the join: the workspace, and a session and an execution where there are any. -/
abbrev Row := (Workspace × Option Session) × Option ExecutionProcess

namespace Database

/-- `FROM workspaces w LEFT JOIN sessions s … LEFT JOIN execution_processes ep …` -/
def joined (db : Database) : List Row :=
  leftJoin (fun row ep => row.2.any (fun s => s.id = ep.sessionId) && ep.completedAt.isSome)
    (leftJoin (fun w s => w.id = s.workspaceId) db.workspaces db.sessions) db.executionProcesses

/-- The subquery: the workspaces with an execution that is not completed. -/
def running (db : Database) : List Nat :=
  ((join (fun s ep => s.id = ep.sessionId) db.sessions db.executionProcesses).filter
    fun row => row.2.completedAt.isNone).map fun row => row.1.workspaceId

def kept (db : Database) : List Row :=
  db.joined.filter fun row => row.1.1.containerRef.isSome && !row.1.1.worktreeDeleted &&
    row.1.1.id ∉ db.running

end Database

def window (w : Workspace) : Int := if w.archived then 3600 else 72 * 3600

/-- The cutoff is a local time, and what it is compared with is not. -/
def having (now : Stamp) (localOffset : Int) (group : List Row) : Bool :=
  group.head?.any fun row => Greater (some (now.datetime + localOffset - window row.1.1))
    (aggregateMax (group.map fun row =>
      scalarMax (some row.1.1.updatedAt.datetime) ((row.2.bind (·.completedAt)).map Stamp.datetime)))

def orderKey (group : List Row) : String :=
  (aggregateMax (group.map fun row =>
    some (((row.2.bind (·.completedAt)).getD row.1.1.updatedAt).text))).getD ""

/-- At a time, with what the server's local time is ahead of it then. -/
def findExpiredForCleanup (now : Stamp) (localOffset : Int) (db : Database) : List Workspace :=
  (((groupBy (fun row : Row => (row.1.1.id, row.1.1.containerRef, row.1.1.updatedAt)) db.kept).filter
    (having now localOffset)).mergeSort fun a b => orderKey a ≤ orderKey b).filterMap fun group =>
      group.head?.map fun row => row.1.1

namespace Database

def completions (db : Database) (w : Workspace) : List Stamp :=
  (db.sessions.filter (·.workspaceId = w.id)).flatMap fun s =>
    (db.executionProcesses.filter (·.sessionId = s.id)).filterMap (·.completedAt)

def latestActivity (db : Database) (w : Workspace) : Int :=
  ((db.completions w).map Stamp.datetime).foldl max w.updatedAt.datetime

def Unfinished (db : Database) (w : Workspace) : Prop :=
  ∃ s ∈ db.sessions, s.workspaceId = w.id ∧
    ∃ ep ∈ db.executionProcesses, ep.sessionId = s.id ∧ ep.completedAt = none

def Removable (db : Database) (w : Workspace) : Prop :=
  w.containerRef ≠ none ∧ w.worktreeDeleted = false ∧ ¬ db.Unfinished w

def Expired (now : Stamp) (db : Database) (w : Workspace) : Prop :=
  db.Removable w ∧ window w < now.datetime - db.latestActivity w

end Database

theorem foldl_max_lt {times : List Int} {start c : Int} :
    times.foldl max start < c ↔ start < c ∧ ∀ t ∈ times, t < c := by
  induction times generalizing start with
  | nil => simp
  | cons t times ih =>
    rw [List.foldl_cons, ih, max_lt_iff, List.forall_mem_cons, and_assoc]

variable {db : Database} {w : Workspace} {row : Row}

theorem mem_completions {t : Stamp} :
    t ∈ db.completions w ↔ ∃ s ∈ db.sessions, s.workspaceId = w.id ∧
      ∃ ep ∈ db.executionProcesses, ep.sessionId = s.id ∧ ep.completedAt = some t := by
  simp only [Database.completions, List.mem_flatMap, List.mem_filter, List.mem_filterMap,
    decide_eq_true_eq, and_assoc]

theorem mem_running : w.id ∈ db.running ↔ db.Unfinished w := by
  simp only [Database.running, Database.Unfinished, List.mem_map, List.mem_filter, mem_join,
    decide_eq_true_eq, Option.isNone_iff_eq_none]
  constructor
  · rintro ⟨⟨s, ep⟩, ⟨⟨hs, hep, hid⟩, hnone⟩, hw⟩
    exact ⟨s, hs, hw, ep, hep, hid.symm, hnone⟩
  · rintro ⟨s, hs, hw, ep, hep, hid, hnone⟩
    exact ⟨(s, ep), ⟨⟨hs, hep, hid.symm⟩, hnone⟩, hw⟩

theorem mem_joined (h : row ∈ db.joined) : row.1.1 ∈ db.workspaces ∧
    ∀ t, row.2.bind (·.completedAt) = some t → t ∈ db.completions row.1.1 := by
  obtain ⟨⟨w, s⟩, ep⟩ := row
  obtain ⟨hrow, hep⟩ := mem_leftJoin.mp h
  obtain ⟨hw, hs⟩ := mem_leftJoin.mp hrow
  refine ⟨hw, fun t ht => mem_completions.mpr ?_⟩
  rcases hep with ⟨ep, hep, hon, rfl⟩ | ⟨-, rfl⟩
  · rcases hs with ⟨s, hs, hws, rfl⟩ | ⟨-, rfl⟩
    · have hid := (Bool.and_eq_true _ _ ▸ hon).1
      exact ⟨s, hs, (of_decide_eq_true hws).symm, ep, hep, (by simpa using hid : s.id = ep.sessionId).symm, ht⟩
    · cases hon
  · cases ht

theorem joined_of_completion (hw : w ∈ db.workspaces) {t : Stamp} (ht : t ∈ db.completions w) :
    ∃ row ∈ db.joined, row.1.1 = w ∧ row.2.bind (·.completedAt) = some t := by
  obtain ⟨s, hs, hws, ep, hep, hid, ht⟩ := mem_completions.mp ht
  refine ⟨((w, some s), some ep), mem_leftJoin.mpr ⟨?_, .inl ⟨ep, hep, ?_, rfl⟩⟩, rfl, ht⟩
  · exact mem_leftJoin.mpr ⟨hw, .inl ⟨s, hs, decide_eq_true hws.symm, rfl⟩⟩
  · simp [hid, ht]

theorem joined_of_mem (hw : w ∈ db.workspaces) :
    ∃ row ∈ db.joined, row.1.1 = w := by
  obtain ⟨s, hs⟩ := exists_leftJoin (fun w s : _ => w.id = s.workspaceId) db.sessions hw
  obtain ⟨ep, hep⟩ := exists_leftJoin _ db.executionProcesses hs
  exact ⟨_, hep, rfl⟩

theorem mem_kept :
    row ∈ db.kept ↔ row ∈ db.joined ∧ db.Removable row.1.1 := by
  rw [Database.kept, List.mem_filter, Bool.and_eq_true, Bool.and_eq_true, decide_eq_true_eq,
    mem_running, Bool.not_eq_true', Option.isSome_iff_ne_none, Database.Removable, and_assoc]

theorem eq_of_id {w' : Workspace} (hw : w ∈ db.workspaces)
    (hw' : w' ∈ db.workspaces) (hid : w.id = w'.id) : w = w' :=
  List.inj_on_of_nodup_map db.nodup hw hw' hid

theorem mem_group {row' : Row} (hrow : row ∈ db.kept) :
    row' ∈ (db.kept.filter fun r : Row => (r.1.1.id, r.1.1.containerRef, r.1.1.updatedAt) =
      (row.1.1.id, row.1.1.containerRef, row.1.1.updatedAt)) ↔
      row' ∈ db.kept ∧ row'.1.1 = row.1.1 := by
  rw [List.mem_filter, decide_eq_true_eq]
  refine and_congr_right fun hrow' => ⟨fun hkey => ?_, fun heq => by rw [heq]⟩
  exact eq_of_id (mem_joined (mem_kept.mp hrow').1).1 (mem_joined (mem_kept.mp hrow).1).1
    (congrArg Prod.fst hkey)

/-- A workspace is found if an execution of it has completed, and it is idle since before the local
cutoff. -/
theorem having_iff {group : List Row} (now : Stamp)
    (localOffset : Int) (hw : w ∈ db.workspaces) (hremovable : db.Removable w)
    (hgroup : ∀ row, row ∈ group ↔ row ∈ db.kept ∧ row.1.1 = w) :
    having now localOffset group = true ↔ db.completions w ≠ [] ∧
      db.latestActivity w < now.datetime + localOffset - window w := by
  have hvalues : ∀ x, some x ∈ (group.map fun row => scalarMax (some row.1.1.updatedAt.datetime)
      ((row.2.bind (·.completedAt)).map Stamp.datetime)) ↔
      ∃ t ∈ db.completions w, x = max w.updatedAt.datetime t.datetime := by
    intro x
    rw [List.mem_map]
    constructor
    · rintro ⟨row, hrow, hx⟩
      obtain ⟨hkept, rfl⟩ := (hgroup row).mp hrow
      cases ht : row.2.bind (·.completedAt) with
      | none =>
        rw [ht] at hx
        cases hx
      | some t =>
        rw [ht] at hx
        exact ⟨t, (mem_joined (mem_kept.mp hkept).1).2 t ht, (Option.some.inj hx).symm⟩
    · rintro ⟨t, ht, rfl⟩
      obtain ⟨row, hrow, rfl, hcompleted⟩ := joined_of_completion hw ht
      refine ⟨row, (hgroup row).mpr ⟨mem_kept.mpr ⟨hrow, hremovable⟩, rfl⟩, ?_⟩
      rw [hcompleted]
      rfl
  obtain ⟨row, hrow, hrw⟩ := joined_of_mem hw
  have hmem : row ∈ group := (hgroup row).mpr ⟨mem_kept.mpr ⟨hrow, hrw ▸ hremovable⟩, hrw⟩
  obtain ⟨head, rest, rfl⟩ := List.exists_cons_of_ne_nil (List.ne_nil_of_mem hmem)
  have hhead : head.1.1 = w := ((hgroup head).mp List.mem_cons_self).2
  rw [having, List.head?_cons, Option.any_some, decide_eq_true_eq, greater_aggregateMax, hhead,
    Database.latestActivity, foldl_max_lt]
  constructor
  · rintro ⟨⟨x, hx⟩, hall⟩
    obtain ⟨t, ht, rfl⟩ := (hvalues x).mp hx
    refine ⟨List.ne_nil_of_mem ht, (le_max_left _ _).trans_lt (hall _ hx), fun c hc => ?_⟩
    obtain ⟨t', ht', rfl⟩ := List.mem_map.mp hc
    exact (le_max_right _ _).trans_lt (hall _ ((hvalues _).mpr ⟨t', ht', rfl⟩))
  · rintro ⟨hne, hupdated, hall⟩
    obtain ⟨t, ht⟩ := List.exists_mem_of_ne_nil _ hne
    refine ⟨⟨_, (hvalues _).mpr ⟨t, ht, rfl⟩⟩, fun x hx => ?_⟩
    obtain ⟨t', ht', rfl⟩ := (hvalues x).mp hx
    exact max_lt hupdated (hall _ (List.mem_map_of_mem ht'))

theorem mem_findExpiredForCleanup (now : Stamp) (localOffset : Int)
    (hw : w ∈ db.workspaces) : w ∈ findExpiredForCleanup now localOffset db ↔
      db.Removable w ∧ db.completions w ≠ [] ∧
        db.latestActivity w < now.datetime + localOffset - window w := by
  rw [findExpiredForCleanup, List.mem_filterMap]
  constructor
  · rintro ⟨group, hgroup, hhead⟩
    obtain ⟨hgroup, hhaving⟩ := List.mem_filter.mp (List.mem_mergeSort.mp hgroup)
    obtain ⟨row, hrow, rfl⟩ := mem_groupBy.mp hgroup
    obtain ⟨head, hmem, rfl⟩ := Option.map_eq_some_iff.mp hhead
    have heq := ((mem_group hrow).mp (List.mem_of_mem_head? hmem)).2
    have hremovable : db.Removable head.1.1 := heq ▸ (mem_kept.mp hrow).2
    refine ⟨hremovable, (having_iff now localOffset hw hremovable fun row' => ?_).mp hhaving⟩
    rw [mem_group hrow, heq]
  · rintro ⟨hremovable, hidle⟩
    obtain ⟨row, hrow, rfl⟩ := joined_of_mem hw
    have hkept : row ∈ db.kept := mem_kept.mpr ⟨hrow, hremovable⟩
    refine ⟨_, List.mem_mergeSort.mpr (List.mem_filter.mpr ⟨mem_groupBy.mpr ⟨row, hkept, rfl⟩, ?_⟩), ?_⟩
    · exact (having_iff now localOffset hw hremovable fun row' => mem_group hkept).mpr hidle
    · obtain ⟨head, rest, hcons⟩ := List.exists_cons_of_ne_nil
        (List.ne_nil_of_mem ((mem_group hkept).mpr ⟨hkept, rfl⟩))
      have hhead := ((mem_group hkept).mp (hcons ▸ List.mem_cons_self : head ∈ _)).2
      rw [hcons, List.head?_cons, Option.map_some, hhead]

/-- An execution has completed, and the workspace became idle at no time between the two cutoffs;
or none has completed, and the workspace has not expired. -/
def Clear (now : Stamp) (localOffset : Int) (db : Database) (w : Workspace) : Prop :=
  let cutoff := now.datetime - window w
  db.completions w ≠ [] ∧ (db.latestActivity w < min cutoff (cutoff + localOffset) ∨
      max cutoff (cutoff + localOffset) ≤ db.latestActivity w) ∨
    db.completions w = [] ∧ cutoff ≤ db.latestActivity w

/-- The query finds the workspaces that have expired just where each one that may be removed is clear
of the cutoffs. -/
theorem findExpiredForCleanup_iff (db : Database) (now : Stamp) (localOffset : Int) :
    (∀ w ∈ db.workspaces, w ∈ findExpiredForCleanup now localOffset db ↔ db.Expired now w) ↔
      ∀ w ∈ db.workspaces, db.Removable w → Clear now localOffset db w := by
  refine forall₂_congr fun w hw => ?_
  rw [mem_findExpiredForCleanup now localOffset hw, Database.Expired, Clear]
  by_cases hremovable : db.Removable w
  · simp only [hremovable, true_and, forall_const]
    by_cases hnone : db.completions w = []
    · simp only [hnone, ne_eq, not_true_eq_false, false_and, false_iff, true_and, false_or]
      omega
    · simp only [hnone, ne_eq, not_false_eq_true, true_and, false_and, or_false]
      omega
  · simp only [hremovable, false_and, false_imp_iff]

/-- A workspace of one hundred hours ago in which nothing was ever run. -/
def idle : Workspace := ⟨1, some "/worktrees/1", ⟨"1970-01-01 00:00:00", 0⟩, false, false⟩

theorem findExpiredForCleanup_not : ¬ ∀ (db : Database) (now : Stamp) (localOffset : Int),
    ∀ w ∈ db.workspaces, w ∈ findExpiredForCleanup now localOffset db ↔ db.Expired now w := by
  intro h
  have hiff := h ⟨[idle], [], [], List.nodup_singleton _⟩ ⟨"1970-01-05 04:00:00", 360000000⟩ 0 idle
    List.mem_cons_self
  rw [mem_findExpiredForCleanup _ _ List.mem_cons_self] at hiff
  refine (hiff.mpr ⟨⟨Option.some_ne_none _, rfl, ?_⟩, by decide⟩).2.1 rfl
  rintro ⟨s, hs, -⟩
  cases hs

end Cdesktop.ExpiredWorkspaces
