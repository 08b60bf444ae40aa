import Cdesktop.SessionGrid
import Mathlib.Data.List.Nodup

/-! Every run of the session grid keeps it well formed. -/

namespace Cdesktop.SessionGrid
set_option autoImplicit true

theorem modify_middle (before : List α) (x : α) (after : List α) (f : α → α) :
    (before ++ x :: after).modify before.length f = before ++ f x :: after := by
  induction before with
  | nil => rfl
  | cons y before ih => exact congrArg (y :: ·) ih

structure At (groups : List SessionGroup) (loc : Location) where
  before : List SessionGroup
  front : List SessionCell
  cell : SessionCell
  back : List SessionCell
  splitRatio : Number
  after : List SessionGroup
  groups_eq : groups = before ++ ⟨front ++ cell :: back, splitRatio⟩ :: after
  groupIndex : loc.groupIndex = before.length
  cellIndex : loc.cellIndex = front.length

theorem findCellFrom_some (h : findCellFrom cellId g groups = some loc) :
    ∃ p : At groups ⟨loc.groupIndex - g, loc.cellIndex⟩, g ≤ loc.groupIndex ∧ p.cell.id = cellId := by
  induction groups generalizing g with
  | nil => cases h
  | cons group groups ih =>
    rw [findCellFrom] at h
    split at h
    · rename_i c hfind
      cases h
      obtain ⟨hc, hid, -⟩ := List.findIdx?_eq_some_iff_getElem.1 hfind
      refine ⟨⟨[], group.cells.take c, group.cells[c], group.cells.drop (c + 1), group.splitRatio,
        groups, ?_, Nat.sub_self g, ?_⟩, Nat.le_refl g, of_decide_eq_true hid⟩
      · rw [List.getElem_cons_drop, List.take_append_drop]
        rfl
      · rw [List.length_take, Nat.min_eq_left (Nat.le_of_lt hc)]
    · obtain ⟨p, hle, hid⟩ := ih h
      refine ⟨⟨group :: p.before, p.front, p.cell, p.back, p.splitRatio, p.after, ?_, ?_,
        p.cellIndex⟩, Nat.le_of_succ_le hle, hid⟩
      · rw [List.cons_append, ← p.groups_eq]
      · have := p.groupIndex
        dsimp only at this ⊢
        rw [List.length_cons, ← this]
        omega

theorem findCellFrom_none (h : findCellFrom cellId g groups = none) :
    ∀ cell ∈ groups.flatMap (·.cells), cell.id ≠ cellId := by
  induction groups generalizing g with
  | nil => exact fun cell hcell => nomatch hcell
  | cons group groups ih =>
    rw [findCellFrom] at h
    split at h
    · cases h
    · rename_i hfind
      intro cell hcell
      rw [List.flatMap_cons] at hcell
      rcases List.mem_append.1 hcell with hcell | hcell
      · exact of_decide_eq_false (List.findIdx?_eq_none_iff.1 hfind cell hcell)
      · exact ih h cell hcell

theorem findCell_some (h : findCell grid cellId = some loc) :
    ∃ p : At grid.groups loc, p.cell.id = cellId := by
  obtain ⟨p, -, hid⟩ := findCellFrom_some h
  exact ⟨p, hid⟩

namespace At
variable {loc : Location}

def cellsBefore (p : At groups loc) : List SessionCell := p.before.flatMap (·.cells) ++ p.front

def cellsAfter (p : At groups loc) : List SessionCell := p.back ++ p.after.flatMap (·.cells)

theorem flatMap_cells (ratio : Number) (before after : List SessionGroup)
    (cells : List SessionCell) :
    (before ++ ⟨cells, ratio⟩ :: after).flatMap (·.cells) =
      before.flatMap (·.cells) ++ (cells ++ after.flatMap (·.cells)) := by
  rw [List.flatMap_append, List.flatMap_cons]

theorem cells_eq {grid : Grid} (p : At grid.groups loc) :
    getAllCells grid = p.cellsBefore ++ p.cell :: p.cellsAfter := by
  rw [getAllCells]
  rw [congrArg (List.flatMap (·.cells)) p.groups_eq, flatMap_cells, cellsBefore, cellsAfter,
    List.append_assoc, List.append_assoc, List.cons_append]

theorem getElem? (p : At groups loc) :
    groups[loc.groupIndex]? = some ⟨p.front ++ p.cell :: p.back, p.splitRatio⟩ := by
  have hget := congrArg (·[loc.groupIndex]?) p.groups_eq
  rw [hget, p.groupIndex, List.getElem?_append_right (Nat.le_refl _), Nat.sub_self]
  rfl

theorem modify (p : At groups loc) (f : SessionGroup → SessionGroup) :
    groups.modify loc.groupIndex f =
      p.before ++ f ⟨p.front ++ p.cell :: p.back, p.splitRatio⟩ :: p.after := by
  have hmodify := congrArg (·.modify loc.groupIndex f) p.groups_eq
  rw [hmodify, p.groupIndex, modify_middle]

end At

structure Sized (groups : List SessionGroup) : Prop where
  length : groups.length = 1 ∨ groups.length = 2
  cells : ∀ group ∈ groups, group.cells.length = 1 ∨ group.cells.length = 2

structure Frame (grid : Grid) : Prop where
  sized : Sized grid.groups
  ratio : grid.splitRatio.InUnit
  ratios : ∀ group ∈ grid.groups, group.splitRatio.InUnit

theorem default_inUnit : defaultRatio.InUnit := by
  constructor <;> grind

theorem clamp01_inUnit (ratio : Number) : (clamp01 ratio).InUnit := by
  cases ratio with
  | nan => exact default_inUnit
  | negInfinity => constructor <;> decide
  | infinity => constructor <;> decide
  | finite n =>
    rw [clamp01]
    split
    · constructor <;> decide
    · split
      · constructor <;> decide
      · exact ⟨Rat.not_lt.1 ‹_›, Rat.not_lt.1 ‹_›⟩

theorem Sized.cells_ne_nil (h : Sized groups) (hgroup : group ∈ groups) : group.cells ≠ [] := by
  intro hnil
  have := h.cells group hgroup
  rw [hnil] at this
  cases this <;> contradiction

theorem firstCell?_eq (h : Sized grid.groups) : firstCell? grid = (getAllCells grid).head? := by
  rw [firstCell?, getAllCells]
  cases hgroups : grid.groups with
  | nil => rfl
  | cons group groups =>
    have hne := h.cells_ne_nil (hgroups ▸ List.mem_cons_self)
    obtain ⟨cell, cells, hcells⟩ := List.exists_cons_of_ne_nil hne
    rw [List.flatMap_cons, hcells]
    change group.cells[0]? = _
    rw [hcells]
    rfl

theorem Frame.exists_first (h : Frame grid) :
    ∃ first rest, getAllCells grid = first :: rest := by
  cases hgroups : grid.groups with
  | nil =>
    have := h.sized.length
    rw [hgroups] at this
    cases this <;> contradiction
  | cons group groups =>
    have hne := h.sized.cells_ne_nil (hgroups ▸ List.mem_cons_self)
    obtain ⟨cell, cells, hcells⟩ := List.exists_cons_of_ne_nil hne
    exact ⟨cell, cells ++ groups.flatMap (·.cells), by
      rw [getAllCells, hgroups, List.flatMap_cons, hcells, List.cons_append]⟩

theorem Frame.replace (h : Frame grid) (p : At grid.groups loc) (cells : List SessionCell)
    (hcells : cells.length = 1 ∨ cells.length = 2) (focus : CellId) :
    Frame { grid with
      groups := p.before ++ ⟨cells, p.splitRatio⟩ :: p.after, focusedCellId := focus } := by
  have hmem : ∀ group ∈ p.before ++ ⟨cells, p.splitRatio⟩ :: p.after,
      group = ⟨cells, p.splitRatio⟩ ∨ group ∈ grid.groups := by
    intro group hgroup
    rw [congrArg (group ∈ ·) p.groups_eq]
    rcases List.mem_append.1 hgroup with hgroup | hgroup
    · exact .inr (List.mem_append_left _ hgroup)
    · rcases List.mem_cons.1 hgroup with rfl | hgroup
      · exact .inl rfl
      · exact .inr (List.mem_append_right _ (List.mem_cons_of_mem _ hgroup))
  have hratio : p.splitRatio.InUnit := h.ratios _ (List.mem_of_getElem? p.getElem?)
  refine ⟨⟨?_, ?_⟩, h.ratio, ?_⟩
  · have hlength := congrArg List.length p.groups_eq
    rw [List.length_append, List.length_cons] at hlength ⊢
    rw [← hlength]
    exact h.sized.length
  · intro group hgroup
    rcases hmem group hgroup with rfl | hgroup
    · exact hcells
    · exact h.sized.cells group hgroup
  · intro group hgroup
    rcases hmem group hgroup with rfl | hgroup
    · exact hratio
    · exact h.ratios group hgroup

structure Closed (grid : Grid) (cellId : CellId) (grid' : Grid) : Prop where
  frame : Frame grid'
  cells : ∃ front cell back, getAllCells grid = front ++ cell :: back ∧ cell.id = cellId ∧
    front ≠ [] ∧ getAllCells grid' = front ++ back
  focus : grid'.focusedCellId = grid.focusedCellId ∧ grid.focusedCellId ≠ cellId ∨
    ∃ cell ∈ getAllCells grid', cell.id = grid'.focusedCellId

theorem pickFallbackFocus_mem (h : Frame grid) (loc : Location) :
    ∃ cell ∈ getAllCells grid, pickFallbackFocus grid loc = some cell.id := by
  have hfirst : ∃ cell ∈ getAllCells grid, (firstCell? grid).map (·.id) = some cell.id := by
    obtain ⟨first, rest, hcells⟩ := h.exists_first
    rw [firstCell?_eq h.sized, hcells]
    exact ⟨first, List.mem_cons_self, rfl⟩
  rw [pickFallbackFocus]
  split
  · rename_i group hgroup
    split
    · rename_i sibling hsibling
      exact ⟨sibling, List.mem_flatMap.2 ⟨group, List.mem_of_getElem? hgroup,
        List.mem_of_getElem? hsibling⟩, rfl⟩
    · exact hfirst
  · exact hfirst

theorem refocus_spec (h : Frame grid) (cellId : CellId) (loc : Location) :
    ∃ focus, refocus grid cellId loc = some { grid with focusedCellId := focus } ∧
      (focus = grid.focusedCellId ∧ grid.focusedCellId ≠ cellId ∨
        ∃ cell ∈ getAllCells grid, cell.id = focus) := by
  rw [refocus]
  split
  · obtain ⟨cell, hcell, hpick⟩ := pickFallbackFocus_mem h loc
    exact ⟨cell.id, by rw [hpick]; rfl, .inr ⟨cell, hcell, rfl⟩⟩
  · exact ⟨grid.focusedCellId, rfl, .inl ⟨rfl, ‹_›⟩⟩

theorem At.cellsBefore_ne_nil (h : Sized grid.groups) (p : At grid.groups loc)
    (hfirst : isFirstCell grid p.cell.id = false) : p.cellsBefore ≠ [] := by
  intro hnil
  rw [isFirstCell, firstCell?_eq h, p.cells_eq, hnil] at hfirst
  exact absurd rfl (of_decide_eq_false hfirst)

theorem close_alone (h : Frame grid) (p : At grid.groups loc) (hfront : p.front = [])
    (hfirst : isFirstCell grid p.cell.id = false) :
    p.after = [] ∧ ∃ group, p.before = [group] := by
  have hbefore : p.before ≠ [] := by
    intro hnil
    apply p.cellsBefore_ne_nil h.sized hfirst
    rw [At.cellsBefore, hnil, hfront]
    rfl
  have hlength := congrArg List.length p.groups_eq
  rw [List.length_append, List.length_cons] at hlength
  have hsize := h.sized.length
  have hpos := List.length_pos_of_ne_nil hbefore
  refine ⟨List.eq_nil_of_length_eq_zero (by omega), ?_⟩
  exact List.length_eq_one_iff.1 (by omega)

theorem Closed.refocus (p : At grid.groups loc) (hne : p.cellsBefore ≠ []) (h : Frame rest)
    (hcells : getAllCells rest = p.cellsBefore ++ p.cellsAfter)
    (hfocus : rest.focusedCellId = grid.focusedCellId) :
    ∃ grid', SessionGrid.refocus rest p.cell.id loc = some grid' ∧ Closed grid p.cell.id grid' := by
  obtain ⟨focus, hrefocus, hcase⟩ := refocus_spec h p.cell.id loc
  refine ⟨_, hrefocus, ⟨⟨h.sized, h.ratio, h.ratios⟩, ?_, ?_⟩⟩
  · exact ⟨p.cellsBefore, p.cell, p.cellsAfter, p.cells_eq, rfl, hne, hcells⟩
  · rw [hfocus] at hcase
    exact hcase

theorem reduceCloseCell_spec (h : Frame grid) (cellId : CellId) :
    ∃ grid', reduceCloseCell grid cellId = some grid' ∧
      (grid' = grid ∧ (isFirstCell grid cellId = true ∨ ∀ cell ∈ getAllCells grid, cell.id ≠ cellId) ∨
        isFirstCell grid cellId = false ∧ Closed grid cellId grid') := by
  rw [reduceCloseCell]
  split
  · exact ⟨grid, rfl, .inl ⟨rfl, .inl ‹_›⟩⟩
  · rename_i hfirst
    rw [Bool.not_eq_true] at hfirst
    split
    · rename_i hfind
      exact ⟨grid, rfl, .inl ⟨rfl, .inr (findCellFrom_none hfind)⟩⟩
    · rename_i loc hfind
      obtain ⟨p, rfl⟩ := findCell_some hfind
      have hne := p.cellsBefore_ne_nil h.sized hfirst
      have herase : (p.front ++ p.cell :: p.back).eraseIdx loc.cellIndex = p.front ++ p.back := by
        rw [p.cellIndex, List.eraseIdx_append_of_length_le (Nat.le_refl _), Nat.sub_self]
        rfl
      rw [p.getElem?, Option.bind_eq_bind, Option.bind_some]
      dsimp only
      rw [herase]
      split
      · rename_i hempty
        obtain ⟨hfront, hback⟩ := List.append_eq_nil_iff.1 (List.eq_nil_of_length_eq_zero hempty)
        obtain ⟨hafter, group, hbefore⟩ := close_alone h p hfront hfirst
        have hgroups : grid.groups.eraseIdx loc.groupIndex = [group] := by
          have heq := congrArg (·.eraseIdx loc.groupIndex) p.groups_eq
          rw [heq, p.groupIndex, List.eraseIdx_append_of_length_le (Nat.le_refl _), Nat.sub_self,
            hafter, hbefore]
          rfl
        have hgroup : group ∈ grid.groups := by
          rw [congrArg (group ∈ ·) p.groups_eq, hbefore]
          exact List.mem_cons_self
        have hcells : group.cells = p.cellsBefore ++ p.cellsAfter := by
          rw [At.cellsBefore, At.cellsAfter, hbefore, hafter, hfront, hback]
          simp
        have hframe : ∀ o, Frame ⟨o, [group], defaultRatio, grid.focusedCellId⟩ := by
          refine fun o => ⟨⟨.inl rfl, ?_⟩, default_inUnit, ?_⟩
          · exact fun g hg => h.sized.cells g (List.mem_singleton.1 hg ▸ hgroup)
          · exact fun g hg => h.ratios g (List.mem_singleton.1 hg ▸ hgroup)
        rw [hgroups]
        split
        · obtain ⟨grid', heq, hclosed⟩ := Closed.refocus p hne (hframe .vertical)
            ((List.append_nil _).trans hcells) rfl
          exact ⟨grid', heq, .inr ⟨hfirst, hclosed⟩⟩
        · obtain ⟨grid', heq, hclosed⟩ := Closed.refocus p hne (hframe grid.primaryOrientation)
            ((List.append_nil _).trans hcells) rfl
          exact ⟨grid', heq, .inr ⟨hfirst, hclosed⟩⟩
      · rename_i hrest
        have hset : grid.groups.set loc.groupIndex ⟨p.front ++ p.back, p.splitRatio⟩ =
            p.before ++ ⟨p.front ++ p.back, p.splitRatio⟩ :: p.after := by
          have heq := congrArg (·.set loc.groupIndex ⟨p.front ++ p.back, p.splitRatio⟩) p.groups_eq
          rw [heq, p.groupIndex, List.set_append_right _ _ (Nat.le_refl _), Nat.sub_self]
          rfl
        have hsize : (p.front ++ p.back).length = 1 ∨ (p.front ++ p.back).length = 2 := by
          have hcells := h.sized.cells _ (List.mem_of_getElem? p.getElem?)
          rw [List.length_append, List.length_cons] at hcells
          rw [List.length_append] at hrest ⊢
          omega
        rw [hset]
        obtain ⟨grid', heq, hclosed⟩ := Closed.refocus p hne
          (h.replace p _ hsize grid.focusedCellId) (by
            rw [getAllCells, At.flatMap_cells, At.cellsBefore, At.cellsAfter, List.append_assoc,
              List.append_assoc]) rfl
        exact ⟨grid', heq, .inr ⟨hfirst, hclosed⟩⟩

structure Distinct (cells : List SessionCell) : Prop where
  ids : (cells.map (·.id)).Nodup
  sessions : ((cells.map (·.sessionId)).filter (· ≠ "")).Nodup

def Free (sessionId : SessionId) (cells : List SessionCell) : Prop :=
  sessionId = "" ∨ ∀ cell ∈ cells, cell.sessionId ≠ sessionId

theorem Distinct.sublist (h : Distinct cells) (hsub : List.Sublist cells' cells) : Distinct cells' :=
  ⟨h.ids.sublist (hsub.map _), h.sessions.sublist ((hsub.map _).filter _)⟩

theorem Distinct.cons {cell : SessionCell} (h : Distinct cells) (hid : ∀ c ∈ cells, c.id ≠ cell.id)
    (hfree : Free cell.sessionId cells) : Distinct (cell :: cells) := by
  constructor
  · rw [List.map_cons, List.nodup_cons]
    refine ⟨?_, h.ids⟩
    intro hmem
    obtain ⟨c, hc, heq⟩ := List.mem_map.1 hmem
    exact hid c hc heq
  · rw [List.map_cons, List.filter_cons]
    split
    · rename_i hsession
      rw [List.nodup_cons]
      refine ⟨?_, h.sessions⟩
      intro hmem
      obtain ⟨c, hc, heq⟩ := List.mem_map.1 (List.mem_of_mem_filter hmem)
      exact hfree.elim (by simpa using hsession) (fun hall => hall c hc heq)
    · exact h.sessions

theorem Distinct.perm (h : Distinct cells) (hperm : cells.Perm cells') : Distinct cells' :=
  ⟨(hperm.map _).nodup_iff.1 h.ids, ((hperm.map _).filter _).nodup_iff.1 h.sessions⟩

theorem Free.subset (h : Free sessionId cells) (hsub : ∀ cell ∈ cells', cell ∈ cells) :
    Free sessionId cells' :=
  h.imp_right fun hall cell hcell => hall cell (hsub cell hcell)

theorem findCellBySessionId_none (h : findCellBySessionId grid sessionId = none) :
    Free sessionId (getAllCells grid) := by
  rw [findCellBySessionId] at h
  split at h
  · exact .inl ‹_›
  · exact .inr fun cell hcell heq => List.find?_eq_none.1 h cell hcell (decide_eq_true heq)

theorem findCellBySessionId_some (h : findCellBySessionId grid sessionId = some cell) :
    sessionId ≠ "" ∧ cell ∈ getAllCells grid ∧ cell.sessionId = sessionId := by
  rw [findCellBySessionId] at h
  split at h
  · cases h
  · have hsession := List.find?_some h
    exact ⟨‹_›, List.mem_of_find?_eq_some h, of_decide_eq_true hsession⟩

theorem Distinct.eq_of_id (h : Distinct cells) (hc : c ∈ cells) (hd : d ∈ cells)
    (heq : c.id = d.id) : c = d :=
  List.inj_on_of_nodup_map h.ids hc hd heq

theorem Distinct.free_rest {cell : SessionCell} (front : List SessionCell)
    (h : Distinct (front ++ cell :: back)) :
    Free cell.sessionId (front ++ back) := by
  by_cases hempty : cell.sessionId = ""
  · exact .inl hempty
  · have hperm := h.perm List.perm_middle
    have hsessions := hperm.sessions
    rw [List.map_cons, List.filter_cons, if_pos (by simpa using hempty), List.nodup_cons] at hsessions
    refine .inr fun c hc heq => hsessions.1 (List.mem_filter.2 ⟨?_, by simpa using hempty⟩)
    exact List.mem_map.2 ⟨c, hc, heq⟩

/-- A grid that may have a group of two cells alone. -/
structure Sound (grid : Grid) : Prop extends Frame grid where
  distinct : Distinct (getAllCells grid)
  focused : ∃ cell ∈ getAllCells grid, cell.id = grid.focusedCellId

/-- The new grid is sound, and its cells are cells of the old one or have the new id. -/
structure Keeps (newCellId : CellId) (grid grid' : Grid) : Prop where
  sound : Sound grid'
  made : ∀ cell ∈ getAllCells grid', cell.id = newCellId ∨ ∃ c ∈ getAllCells grid, c.id = cell.id

def firstId (grid : Grid) : Option CellId := (firstCell? grid).map (·.id)

theorem Keeps.refl (h : Sound grid) : Keeps newCellId grid grid :=
  ⟨h, fun cell hcell => .inr ⟨cell, hcell, rfl⟩⟩

theorem Closed.first (hframe : Frame grid) (h : Closed grid cellId grid') :
    firstCell? grid' = firstCell? grid := by
  obtain ⟨front, cell, back, hcells, -, hne, hcells'⟩ := h.cells
  obtain ⟨first, rest, rfl⟩ := List.exists_cons_of_ne_nil hne
  rw [firstCell?_eq hframe.sized, firstCell?_eq h.frame.sized, hcells, hcells']
  rfl

theorem reduceCloseCell_keeps (h : Sound grid) (newCellId cellId : CellId) :
    ∃ grid', reduceCloseCell grid cellId = some grid' ∧ Keeps newCellId grid grid' ∧
      firstCell? grid' = firstCell? grid := by
  obtain ⟨grid', heq, ⟨rfl, -⟩ | ⟨-, hclosed⟩⟩ := reduceCloseCell_spec h.toFrame cellId
  · exact ⟨grid', heq, .refl h, rfl⟩
  · refine ⟨grid', heq, ⟨⟨hclosed.frame, ?_, ?_⟩, ?_⟩, hclosed.first h.toFrame⟩
    all_goals obtain ⟨front, cell, back, hcells, hid, -, hcells'⟩ := hclosed.cells
    · rw [hcells']
      apply h.distinct.sublist
      rw [hcells]
      exact (List.sublist_cons_self cell back).append_left front
    · obtain ⟨hfocus, hne⟩ | hfocus := hclosed.focus
      · obtain ⟨c, hc, hcid⟩ := h.focused
        refine ⟨c, ?_, hcid.trans hfocus.symm⟩
        rw [hcells, List.mem_append, List.mem_cons] at hc
        rw [hcells', List.mem_append]
        obtain hc | rfl | hc := hc
        · exact .inl hc
        · exact (hne (hcid.symm.trans hid)).elim
        · exact .inr hc
      · exact hfocus
    · intro c hc
      refine .inr ⟨c, ?_, rfl⟩
      rw [hcells'] at hc
      rw [hcells]
      exact ((List.sublist_cons_self cell back).append_left front).subset hc

theorem rewriteFirstCellSession_spec (h : Frame grid) (sessionId : SessionId)
    (hcells : getAllCells grid = first :: rest) :
    ∃ grid', rewriteFirstCellSession grid sessionId = some grid' ∧ Frame grid' ∧
      getAllCells grid' = { first with sessionId } :: rest ∧ grid'.focusedCellId = first.id := by
  rw [rewriteFirstCellSession]
  rw [getAllCells] at hcells
  split
  · rename_i hgroups
    rw [hgroups] at hcells
    cases hcells
  · rename_i ratio groups hgroups
    exact (h.sized.cells_ne_nil (hgroups ▸ List.mem_cons_self) rfl).elim
  · rename_i cell cells ratio groups hgroups
    rw [hgroups] at hcells
    obtain ⟨rfl, rfl⟩ := List.cons.inj hcells
    let p : At grid.groups ⟨0, 0⟩ := ⟨[], [], cell, cells, ratio, groups, hgroups, rfl, rfl⟩
    have hsize := h.sized.cells _ (hgroups ▸ List.mem_cons_self)
    exact ⟨_, rfl, h.replace p ({ cell with sessionId } :: cells) hsize cell.id, rfl, rfl⟩

theorem firstId_eq (h : Frame grid) (hcells : getAllCells grid = first :: rest) :
    firstId grid = some first.id := by
  rw [firstId, firstCell?_eq h.sized, hcells]
  rfl

theorem isFirstCell_eq (h : Frame grid) (hcells : getAllCells grid = first :: rest)
    (cellId : CellId) : isFirstCell grid cellId = true ↔ first.id = cellId := by
  rw [isFirstCell, decide_eq_true_iff]
  have hfirst := firstId_eq h hcells
  rw [firstId] at hfirst
  rw [hfirst, Option.some.injEq]

theorem closeDuplicate_spec (h : Sound grid) {sessionId : SessionId}
    (hcells : getAllCells grid = first :: rest) (hother : first.sessionId ≠ sessionId) :
    ∃ working rest', closeDuplicate grid sessionId = some working ∧ Frame working ∧
      getAllCells working = first :: rest' ∧ List.Sublist rest' rest ∧ Free sessionId rest' := by
  rw [closeDuplicate]
  split
  · rename_i dup hdup
    obtain ⟨hempty, hmem, hsession⟩ := findCellBySessionId_some hdup
    have hnot : isFirstCell grid dup.id = false := by
      apply Bool.eq_false_iff.2
      intro hfirst
      have hid := (isFirstCell_eq h.toFrame hcells dup.id).1 hfirst
      have heq := h.distinct.eq_of_id (hcells ▸ List.mem_cons_self) hmem hid
      exact hother (heq ▸ hsession)
    obtain ⟨working, heq, ⟨-, hfirst | hnone⟩ | ⟨-, hclosed⟩⟩ :=
      reduceCloseCell_spec h.toFrame dup.id
    · rw [hnot] at hfirst
      cases hfirst
    · exact (hnone dup hmem rfl).elim
    · obtain ⟨front, cell, back, hall, hid, hne, hrest⟩ := hclosed.cells
      obtain ⟨first', front, rfl⟩ := List.exists_cons_of_ne_nil hne
      have hcell : cell = dup :=
        h.distinct.eq_of_id (hall ▸ List.mem_append_right _ List.mem_cons_self) hmem hid
      have hfree := Distinct.free_rest (first' :: front) (hall ▸ h.distinct)
      rw [hcell, hsession] at hfree
      rw [hcells] at hall
      obtain ⟨rfl, rfl⟩ := List.cons.inj hall
      exact ⟨working, front ++ back, heq, hclosed.frame, hrest,
        (List.sublist_cons_self cell back).append_left front,
        hfree.subset fun c hc => List.mem_cons_of_mem _ hc⟩
  · rename_i hnone
    have hfree := findCellBySessionId_none hnone
    rw [hcells] at hfree
    exact ⟨grid, rest, rfl, h.toFrame, hcells, List.Sublist.refl _,
      hfree.subset fun c hc => List.mem_cons_of_mem _ hc⟩

theorem Distinct.ids_rest (h : Distinct (first :: rest)) : ∀ c ∈ rest, c.id ≠ first.id := by
  intro c hc heq
  have hids := h.ids
  rw [List.map_cons, List.nodup_cons] at hids
  exact hids.1 (List.mem_map.2 ⟨c, hc, heq⟩)

theorem moveHere_keeps (h : Sound grid) (newCellId : CellId) {sessionId : SessionId}
    (hcells : getAllCells grid = first :: rest) (hother : first.sessionId ≠ sessionId) :
    ∃ grid', reduceSetFirstCellSession.moveHere grid sessionId = some grid' ∧
      Keeps newCellId grid grid' ∧ firstId grid' = firstId grid := by
  obtain ⟨working, rest', hclose, hframe, hcells', hsub, hfree⟩ :=
    closeDuplicate_spec h hcells hother
  obtain ⟨grid', hrewrite, hframe', hall, hfocus⟩ :=
    rewriteFirstCellSession_spec hframe sessionId hcells'
  have hdistinct := (hcells ▸ h.distinct).sublist (hsub.cons_cons first)
  refine ⟨grid', ?_, ⟨⟨hframe', ?_, ?_⟩, ?_⟩, ?_⟩
  · rw [reduceSetFirstCellSession.moveHere, hclose]
    exact hrewrite
  · rw [hall]
    exact (hdistinct.sublist (List.sublist_cons_self first rest')).cons hdistinct.ids_rest hfree
  · rw [hall]
    exact ⟨_, List.mem_cons_self, hfocus.symm⟩
  · intro c hc
    rw [hall] at hc
    rw [hcells]
    rcases List.mem_cons.1 hc with rfl | hc
    · exact .inr ⟨first, List.mem_cons_self, rfl⟩
    · exact .inr ⟨c, List.mem_cons_of_mem _ (hsub.subset hc), rfl⟩
  · rw [firstId_eq h.toFrame hcells, firstId_eq hframe' hall]

theorem reduceSetFirstCellSession_keeps (h : Sound grid) (newCellId : CellId)
    (sessionId : SessionId) :
    ∃ grid', reduceSetFirstCellSession grid sessionId = some grid' ∧ Keeps newCellId grid grid' ∧
      firstId grid' = firstId grid := by
  obtain ⟨first, rest, hcells⟩ := h.exists_first
  rw [reduceSetFirstCellSession, firstCell?_eq h.sized, hcells, List.head?_cons]
  dsimp only
  split
  · refine ⟨_, rfl, ⟨⟨⟨h.sized, h.ratio, h.ratios⟩, h.distinct, ?_⟩, ?_⟩, rfl⟩
    · exact ⟨first, hcells ▸ List.mem_cons_self, rfl⟩
    · exact fun c hc => .inr ⟨c, hc, rfl⟩
  · exact moveHere_keeps h newCellId hcells ‹_›

theorem promote_keeps (h : Sound grid) (newCellId : CellId)
    (hcells : getAllCells grid = first :: next :: rest) :
    ∃ grid', (rewriteFirstCellSession grid next.sessionId).bind (reduceCloseCell · next.id) =
        some grid' ∧ Keeps newCellId grid grid' ∧ firstId grid' = firstId grid := by
  obtain ⟨promoted, hrewrite, hframe, hall, hfocus⟩ :=
    rewriteFirstCellSession_spec h.toFrame next.sessionId hcells
  have hdistinct := hcells ▸ h.distinct
  have hne : first.id ≠ next.id := fun heq => hdistinct.ids_rest next List.mem_cons_self heq.symm
  have hdistinct' := hdistinct.sublist (List.sublist_cons_self first (next :: rest))
  obtain ⟨grid', hclose, ⟨-, hfirst | hnone⟩ | ⟨-, hclosed⟩⟩ := reduceCloseCell_spec hframe next.id
  · exact (hne ((isFirstCell_eq hframe hall next.id).1 hfirst)).elim
  · exact (hnone next (hall ▸ List.mem_cons_of_mem _ List.mem_cons_self) rfl).elim
  obtain ⟨front, cell, back, hsplit, hid, hfront, hrest⟩ := hclosed.cells
  obtain ⟨first', front, rfl⟩ := List.exists_cons_of_ne_nil hfront
  rw [hall] at hsplit
  obtain ⟨rfl, htail⟩ := List.cons.inj hsplit
  have hback : front = [] ∧ back = rest := by
    cases front with
    | nil => exact ⟨rfl, (List.cons.inj htail).2.symm⟩
    | cons c front =>
      obtain ⟨rfl, rfl⟩ := List.cons.inj htail
      exact (hdistinct'.ids_rest cell (List.mem_append_right _ List.mem_cons_self) hid).elim
  obtain ⟨rfl, rfl⟩ := hback
  rw [List.cons_append, List.nil_append] at hrest
  refine ⟨grid', by rw [hrewrite]; exact hclose, ⟨⟨hclosed.frame, ?_, ?_⟩, ?_⟩, ?_⟩
  · rw [hrest]
    apply (hdistinct'.sublist (List.sublist_cons_self next back)).cons
    · exact fun c hc => hdistinct.ids_rest c (List.mem_cons_of_mem _ hc)
    · have hfree := Distinct.free_rest [] hdistinct'
      exact hfree
  · obtain ⟨hsame, -⟩ | hmoved := hclosed.focus
    · rw [hrest]
      exact ⟨_, List.mem_cons_self, (hsame.trans hfocus).symm⟩
    · exact hmoved
  · intro c hc
    rw [hrest] at hc
    rw [hcells]
    rcases List.mem_cons.1 hc with rfl | hc
    · exact .inr ⟨first, List.mem_cons_self, rfl⟩
    · exact .inr ⟨c, List.mem_cons_of_mem _ (List.mem_cons_of_mem _ hc), rfl⟩
  · rw [firstId_eq h.toFrame hcells, firstId_eq hclosed.frame hrest]

theorem clear_keeps (h : Sound grid) (newCellId : CellId) (hcells : getAllCells grid = [first])
    (hgroups : grid.groups = firstGroup :: groups) :
    Keeps newCellId grid { grid with
      groups := [⟨{ first with sessionId := "" } :: firstGroup.cells.drop 1, firstGroup.splitRatio⟩]
      focusedCellId := first.id } := by
  have hgroup : firstGroup ∈ grid.groups := hgroups ▸ List.mem_cons_self
  have hfirst : first ∈ getAllCells grid := hcells ▸ List.mem_singleton_self first
  obtain ⟨cell, cells, hcell⟩ := List.exists_cons_of_ne_nil (h.sized.cells_ne_nil hgroup)
  rw [getAllCells, hgroups, List.flatMap_cons, hcell] at hcells
  obtain ⟨-, hnil⟩ := List.cons.inj hcells
  obtain ⟨rfl, -⟩ := List.append_eq_nil_iff.1 hnil
  rw [hcell]
  refine ⟨⟨⟨⟨.inl rfl, ?_⟩, h.ratio, ?_⟩, ?_, ?_⟩, ?_⟩
  · exact fun group hmem => List.mem_singleton.1 hmem ▸ .inl rfl
  · exact fun group hmem => List.mem_singleton.1 hmem ▸ h.ratios firstGroup hgroup
  · exact Distinct.cons ⟨List.nodup_nil, List.nodup_nil⟩ (fun _ hc => nomatch hc) (.inl rfl)
  · exact ⟨_, List.mem_cons_self, rfl⟩
  · intro c hc
    obtain rfl := List.mem_singleton.1 hc
    exact .inr ⟨first, hfirst, rfl⟩

theorem reduceRemoveSession_keeps (h : Sound grid) (newCellId : CellId) (sessionId : SessionId) :
    ∃ grid', reduceRemoveSession grid sessionId = some grid' ∧ Keeps newCellId grid grid' ∧
      firstId grid' = firstId grid := by
  obtain ⟨first, rest, hcells⟩ := h.exists_first
  rw [reduceRemoveSession]
  split
  · exact ⟨grid, rfl, .refl h, rfl⟩
  · rename_i cell hfind
    obtain ⟨-, hmem, -⟩ := findCellBySessionId_some hfind
    split
    · rename_i hfirst
      have hcell : first = cell := h.distinct.eq_of_id (hcells ▸ List.mem_cons_self) hmem
        ((isFirstCell_eq h.toFrame hcells cell.id).1 hfirst)
      subst hcell
      split
      · exact promote_keeps h newCellId ‹_›
      · rename_i firstGroup groups hgroups hmany
        cases rest with
        | nil =>
          refine ⟨_, rfl, clear_keeps h newCellId hcells hgroups, ?_⟩
          rw [firstId_eq h.toFrame hcells]
          rfl
        | cons next rest => exact (hmany _ _ _ hcells).elim
      · rename_i hgroups _
        rw [getAllCells, hgroups] at hcells
        cases hcells
    · obtain ⟨grid', heq, hkeeps, hfirst⟩ := reduceCloseCell_keeps h newCellId cell.id
      refine ⟨grid', heq, hkeeps, ?_⟩
      rw [firstId, firstId, hfirst]

theorem new_keeps (h : Sound grid) (hframe : Frame grid') (kept : List SessionCell)
    (hfresh : ∀ c ∈ getAllCells grid, c.id ≠ newCellId) (hfree : Free sessionId (getAllCells grid))
    (hcells : (getAllCells grid').Perm (⟨newCellId, sessionId⟩ :: kept))
    (hkept : List.Sublist kept (getAllCells grid)) (hfocus : grid'.focusedCellId = newCellId) :
    Keeps newCellId grid grid' := by
  refine ⟨⟨hframe, ?_, ?_⟩, ?_⟩
  · apply Distinct.perm _ hcells.symm
    apply (h.distinct.sublist hkept).cons
    · exact fun c hc => hfresh c (hkept.subset hc)
    · exact hfree.subset fun c hc => hkept.subset hc
  · exact ⟨_, hcells.mem_iff.2 List.mem_cons_self, hfocus.symm⟩
  · intro c hc
    rcases List.mem_cons.1 (hcells.mem_iff.1 hc) with rfl | hc
    · exact .inl rfl
    · exact .inr ⟨c, hkept.subset hc, rfl⟩

theorem set_middle (p : At groups loc) (new : SessionCell) :
    (p.front ++ p.cell :: p.back).set loc.cellIndex new = p.front ++ new :: p.back := by
  rw [p.cellIndex, List.set_append_right _ _ (Nat.le_refl _), Nat.sub_self]
  rfl

theorem reduceReplaceCell_keeps (h : Sound grid) (hfind : findCell grid cellId = some loc)
    (hfresh : ∀ c ∈ getAllCells grid, c.id ≠ newCellId)
    (hfree : Free sessionId (getAllCells grid)) :
    Keeps newCellId grid (reduceReplaceCell newCellId grid cellId sessionId) ∧
      (firstId (reduceReplaceCell newCellId grid cellId sessionId) = firstId grid ∨
        isFirstCell grid cellId = true ∧
          (firstCell? (reduceReplaceCell newCellId grid cellId sessionId)).map (·.sessionId) =
            some sessionId) := by
  obtain ⟨p, rfl⟩ := findCell_some hfind
  have hsize := h.sized.cells _ (List.mem_of_getElem? p.getElem?)
  have hframe := h.toFrame.replace p (p.front ++ ⟨newCellId, sessionId⟩ :: p.back)
    (by rw [List.length_append, List.length_cons] at hsize ⊢; exact hsize) newCellId
  have hcells : getAllCells { grid with
      groups := p.before ++ ⟨p.front ++ ⟨newCellId, sessionId⟩ :: p.back, p.splitRatio⟩ :: p.after
      focusedCellId := newCellId } =
      p.cellsBefore ++ ⟨newCellId, sessionId⟩ :: p.cellsAfter := by
    rw [getAllCells, At.flatMap_cells, At.cellsBefore, At.cellsAfter, List.append_assoc,
      List.append_assoc, List.cons_append]
  rw [reduceReplaceCell, hfind]
  dsimp only
  rw [p.modify]
  dsimp only
  rw [set_middle]
  constructor
  · apply new_keeps h hframe (p.cellsBefore ++ p.cellsAfter) hfresh hfree
    · rw [hcells]
      exact List.perm_middle
    · rw [p.cells_eq]
      exact (List.sublist_cons_self p.cell p.cellsAfter).append_left p.cellsBefore
    · rfl
  · cases hbefore : p.cellsBefore with
    | nil =>
      have hall := p.cells_eq
      rw [hbefore] at hall hcells
      refine .inr ⟨(isFirstCell_eq h.toFrame hall _).2 rfl, ?_⟩
      rw [firstCell?_eq hframe.sized, hcells]
      rfl
    | cons first rest =>
      have hall := p.cells_eq
      rw [hbefore] at hall hcells
      exact .inl ((firstId_eq hframe hcells).trans (firstId_eq h.toFrame hall).symm)

theorem insertCell_keeps (h : Sound grid) (p : At grid.groups loc)
    (halone : (p.front ++ p.cell :: p.back).length = 1)
    (hfresh : ∀ c ∈ getAllCells grid, c.id ≠ newCellId)
    (hfree : Free sessionId (getAllCells grid)) (hinsert : insertAt = 0 ∨ insertAt = 1)
    (hfirst : insertAt = 0 → isFirstCell grid p.cell.id = false) :
    Keeps newCellId grid (insertCell grid loc insertAt ⟨newCellId, sessionId⟩) ∧
      firstId (insertCell grid loc insertAt ⟨newCellId, sessionId⟩) = firstId grid := by
  have hends : p.front = [] ∧ p.back = [] := by
    rw [List.length_append, List.length_cons] at halone
    exact ⟨List.eq_nil_of_length_eq_zero (by omega), List.eq_nil_of_length_eq_zero (by omega)⟩
  have hall := p.cells_eq
  rw [At.cellsBefore, At.cellsAfter, hends.1, hends.2, List.append_nil, List.nil_append] at hall
  rw [insertCell, p.modify]
  dsimp only
  rw [hends.1, hends.2]
  obtain rfl | rfl := hinsert
  · have hframe := h.toFrame.replace p [⟨newCellId, sessionId⟩, p.cell] (.inr rfl) newCellId
    have hcells := At.flatMap_cells p.splitRatio p.before p.after
      [⟨newCellId, sessionId⟩, p.cell]
    constructor
    · apply new_keeps h hframe (getAllCells grid) hfresh hfree _ (List.Sublist.refl _) rfl
      rw [getAllCells, hcells, hall]
      exact List.perm_middle
    · have hne := p.cellsBefore_ne_nil h.sized (hfirst rfl)
      rw [At.cellsBefore, hends.1, List.append_nil] at hne
      obtain ⟨first, rest, hbefore⟩ := List.exists_cons_of_ne_nil hne
      rw [hbefore] at hall hcells
      exact (firstId_eq hframe hcells).trans (firstId_eq h.toFrame hall).symm
  · have hframe := h.toFrame.replace p [p.cell, ⟨newCellId, sessionId⟩] (.inr rfl) newCellId
    have hcells := At.flatMap_cells p.splitRatio p.before p.after
      [p.cell, ⟨newCellId, sessionId⟩]
    constructor
    · apply new_keeps h hframe (getAllCells grid) hfresh hfree _ (List.Sublist.refl _) rfl
      rw [getAllCells, hcells, hall]
      exact (List.Perm.append_left _ (List.Perm.swap ..)).trans List.perm_middle
    · cases hbefore : p.before.flatMap (·.cells) with
      | nil =>
        rw [hbefore] at hall hcells
        exact (firstId_eq hframe hcells).trans (firstId_eq h.toFrame hall).symm
      | cons first rest =>
        rw [hbefore] at hall hcells
        exact (firstId_eq hframe hcells).trans (firstId_eq h.toFrame hall).symm

theorem firstSplit_keeps (h : Sound grid) (hgroups : grid.groups = [group])
    (hfresh : ∀ c ∈ getAllCells grid, c.id ≠ newCellId)
    (hfree : Free sessionId (getAllCells grid)) (orientation : PrimaryOrientation) :
    Keeps newCellId grid ⟨orientation, [group, makeGroup [⟨newCellId, sessionId⟩]], defaultRatio,
        newCellId⟩ ∧
      firstId ⟨orientation, [group, makeGroup [⟨newCellId, sessionId⟩]], defaultRatio, newCellId⟩ =
        firstId grid := by
  have hmem : group ∈ grid.groups := hgroups ▸ List.mem_cons_self
  have hall : getAllCells grid = group.cells := by
    rw [getAllCells, hgroups]
    exact List.append_nil _
  have hframe : Frame ⟨orientation, [group, makeGroup [⟨newCellId, sessionId⟩]], defaultRatio,
      newCellId⟩ := by
    refine ⟨⟨.inr rfl, ?_⟩, default_inUnit, ?_⟩
    · intro g hg
      rcases List.mem_cons.1 hg with rfl | hg
      · exact h.sized.cells g hmem
      · exact List.mem_singleton.1 hg ▸ .inl rfl
    · intro g hg
      rcases List.mem_cons.1 hg with rfl | hg
      · exact h.ratios g hmem
      · exact List.mem_singleton.1 hg ▸ default_inUnit
  constructor
  · apply new_keeps h hframe (getAllCells grid) hfresh hfree _ (List.Sublist.refl _) rfl
    rw [hall]
    exact List.perm_append_singleton _ group.cells
  · rw [firstId, firstId, firstCell?, firstCell?, hgroups]
    rfl

theorem getValidDropHalves_cases (p : At grid.groups loc) (hfind : findCell grid p.cell.id = some loc)
    (hoffered : half ∈ getValidDropHalves grid p.cell.id) (hhalf : half ≠ .full) :
    (p.front ++ p.cell :: p.back).length ≠ 2 ∧
      ((getAllCells grid).length ≠ 1 →
        grid.primaryOrientation = .vertical ∧
            (half = .bottom ∨ half = .top ∧ isFirstCell grid p.cell.id = false) ∨
          grid.primaryOrientation = .horizontal ∧
            (half = .right ∨ half = .left ∧ isFirstCell grid p.cell.id = false)) := by
  rw [getValidDropHalves, hfind] at hoffered
  dsimp only at hoffered
  rw [p.getElem?] at hoffered
  split at hoffered
  · exact (hhalf (List.mem_singleton.1 hoffered)).elim
  · rename_i hlength
    refine ⟨fun heq => hlength (congrArg some heq), fun htotal => ?_⟩
    rw [if_neg htotal] at hoffered
    cases horientation : grid.primaryOrientation with
    | vertical =>
      rw [horientation] at hoffered
      refine .inl ⟨rfl, ?_⟩
      cases hfirst : isFirstCell grid p.cell.id with
      | false =>
        rw [hfirst] at hoffered
        exact (List.mem_pair.1 hoffered).symm.imp_right fun htop => ⟨htop, rfl⟩
      | true =>
        rw [hfirst] at hoffered
        exact .inl (List.mem_singleton.1 hoffered)
    | horizontal =>
      rw [horientation] at hoffered
      refine .inr ⟨rfl, ?_⟩
      cases hfirst : isFirstCell grid p.cell.id with
      | false =>
        rw [hfirst] at hoffered
        exact (List.mem_pair.1 hoffered).symm.imp_right fun hleft => ⟨hleft, rfl⟩
      | true =>
        rw [hfirst] at hoffered
        exact .inl (List.mem_singleton.1 hoffered)

theorem single_group (hshaped : Shaped grid.groups) (htotal : (getAllCells grid).length = 1) :
    ∃ group, grid.groups = [group] := by
  obtain ⟨hcells, hlength | ⟨hlength, -⟩⟩ := hshaped
  · obtain ⟨g, g', hgroups⟩ := List.length_eq_two.1 hlength
    have hg := hcells g (by rw [hgroups]; exact List.mem_cons_self)
    have hg' := hcells g' (by rw [hgroups]; exact List.mem_cons_of_mem _ List.mem_cons_self)
    rw [getAllCells, hgroups, List.flatMap_cons, List.flatMap_cons, List.length_append,
      List.length_append] at htotal
    omega
  · exact List.length_eq_one_iff.1 hlength

theorem reduceSplitFromPill_keeps (h : Sound grid) (hshaped : Shaped grid.groups)
    (hfresh : ∀ c ∈ getAllCells grid, c.id ≠ newCellId) (sessionId : SessionId)
    {target : DropTarget} (hoffered : target.half ∈ getValidDropHalves grid target.cellId) :
    ∃ grid', reduceSplitFromPill newCellId grid sessionId target = some grid' ∧
      Keeps newCellId grid grid' ∧
      (firstId grid' = firstId grid ∨ target.half = .full ∧
        isFirstCell grid target.cellId = true ∧
          (firstCell? grid').map (·.sessionId) = some sessionId) := by
  rw [reduceSplitFromPill]
  split
  · exact ⟨grid, rfl, .refl h, .inl rfl⟩
  · rename_i hfree
    rw [Option.not_isSome_iff_eq_none] at hfree
    have hfree := findCellBySessionId_none hfree
    split
    · exact ⟨grid, rfl, .refl h, .inl rfl⟩
    · rename_i loc hfind
      split
      · rename_i hfull
        obtain ⟨hkeeps, hfirst⟩ := reduceReplaceCell_keeps h hfind hfresh hfree
        exact ⟨_, rfl, hkeeps, hfirst.imp_right fun hreplaced => ⟨hfull, hreplaced⟩⟩
      · rename_i hhalf
        obtain ⟨p, hid⟩ := findCell_some hfind
        rw [← hid] at hfind hoffered
        obtain ⟨hlength, hhalves⟩ := getValidDropHalves_cases p hfind hoffered hhalf
        split
        · rename_i htotal
          obtain ⟨group, hgroups⟩ := single_group hshaped htotal
          split
          · exact ⟨grid, rfl, .refl h, .inl rfl⟩
          · obtain ⟨hkeeps, hfirst⟩ := firstSplit_keeps h hgroups hfresh hfree
              (if target.half = .right then .vertical else .horizontal)
            rw [hgroups]
            exact ⟨_, rfl, hkeeps, .inl hfirst⟩
        · rename_i htotal
          have halone : (p.front ++ p.cell :: p.back).length = 1 :=
            (h.sized.cells _ (List.mem_of_getElem? p.getElem?)).resolve_right hlength
          rw [p.getElem?, Option.bind_eq_bind, Option.bind_some]
          dsimp only
          rw [halone, if_neg (by omega)]
          obtain ⟨horientation, hbottom | ⟨htop, hnot⟩⟩ | ⟨horientation, hright | ⟨hleft, hnot⟩⟩ :=
            hhalves htotal
          · rw [horientation, hbottom]
            obtain ⟨hkeeps, hfirst⟩ := insertCell_keeps h p halone hfresh hfree (.inr rfl) nofun
            exact ⟨_, rfl, hkeeps, .inl hfirst⟩
          · rw [horientation, htop]
            obtain ⟨hkeeps, hfirst⟩ :=
              insertCell_keeps h p halone hfresh hfree (.inl rfl) fun _ => hnot
            exact ⟨_, rfl, hkeeps, .inl hfirst⟩
          · rw [horientation, hright]
            obtain ⟨hkeeps, hfirst⟩ := insertCell_keeps h p halone hfresh hfree (.inr rfl) nofun
            exact ⟨_, rfl, hkeeps, .inl hfirst⟩
          · rw [horientation, hleft]
            obtain ⟨hkeeps, hfirst⟩ :=
              insertCell_keeps h p halone hfresh hfree (.inl rfl) fun _ => hnot
            exact ⟨_, rfl, hkeeps, .inl hfirst⟩

theorem WellFormed.sound (h : WellFormed grid) : Sound grid where
  sized := ⟨h.shaped.2.symm.imp_left And.left, h.shaped.1⟩
  ratio := h.ratio
  ratios := h.ratios
  distinct := ⟨h.ids, h.sessions⟩
  focused := h.focused

theorem Sound.wellFormed (h : Sound grid) (hshaped : Shaped grid.groups) : WellFormed grid :=
  ⟨hshaped, h.distinct.ids, h.distinct.sessions, h.focused, h.ratio, h.ratios⟩

theorem normalizeGrid_cells (grid : Grid) :
    getAllCells (normalizeGrid grid) = getAllCells grid ∧
      firstCell? (normalizeGrid grid) = firstCell? grid := by
  rw [normalizeGrid]
  split
  · rename_i hgroups
    rw [firstCell?, firstCell?, getAllCells, getAllCells, hgroups]
    exact ⟨rfl, rfl⟩
  · exact ⟨rfl, rfl⟩

theorem normalizeGrid_wellFormed (h : Sound grid) : WellFormed (normalizeGrid grid) := by
  have hcells := (normalizeGrid_cells grid).1
  rw [normalizeGrid] at hcells ⊢
  split
  · rename_i c0 c1 ratio hgroups
    rw [hgroups] at hcells
    have hmem : (⟨[c0, c1], ratio⟩ : SessionGroup) ∈ grid.groups := hgroups ▸ List.mem_cons_self
    have hsingle : ∀ group ∈ [(⟨[c0], defaultRatio⟩ : SessionGroup), ⟨[c1], defaultRatio⟩],
        group.cells.length = 1 ∧ group.splitRatio.InUnit := by
      intro group hgroup
      rcases List.mem_pair.1 hgroup with rfl | rfl
      · exact ⟨rfl, default_inUnit⟩
      · exact ⟨rfl, default_inUnit⟩
    refine ⟨⟨fun group hgroup => .inl (hsingle group hgroup).1, .inl rfl⟩, ?_, ?_, ?_,
      h.ratios _ hmem, fun group hgroup => (hsingle group hgroup).2⟩
    · exact hcells ▸ h.distinct.ids
    · exact hcells ▸ h.distinct.sessions
    · exact hcells ▸ h.focused
  · rename_i hnot
    apply h.wellFormed
    refine ⟨h.sized.cells, h.sized.length.symm.imp_right fun hone => ⟨hone, ?_⟩⟩
    intro group hgroup
    obtain ⟨only, hgroups⟩ := List.length_eq_one_iff.1 hone
    rw [hgroups] at hgroup
    obtain rfl := List.mem_singleton.1 hgroup
    apply (h.sized.cells group (hgroups ▸ List.mem_cons_self)).resolve_right
    intro htwo
    obtain ⟨c0, c1, hpair⟩ := List.length_eq_two.1 htwo
    exact hnot c0 c1 group.splitRatio (by rw [hgroups, ← hpair])

structure Reaches (newCellId : CellId) (grid : Grid) (action : Action) (grid' : Grid) : Prop where
  wellFormed : WellFormed grid'
  made : ∀ cell ∈ getAllCells grid', cell.id = newCellId ∨ ∃ c ∈ getAllCells grid, c.id = cell.id
  first : KeepsFirst grid action grid'

theorem Keeps.normalized (h : Keeps newCellId grid grid') (hfirst : firstId grid' = firstId grid) :
    Reaches newCellId grid action (normalizeGrid grid') := by
  obtain ⟨hcells, hcell⟩ := normalizeGrid_cells grid'
  refine ⟨normalizeGrid_wellFormed h.sound, hcells ▸ h.made, .inl ?_⟩
  rw [hcell]
  exact hfirst

theorem Keeps.reaches (h : Keeps newCellId grid grid') (hshaped : Shaped grid'.groups)
    (hfirst : firstId grid' = firstId grid) : Reaches newCellId grid action grid' :=
  ⟨h.sound.wellFormed hshaped, h.made, .inl hfirst⟩

theorem mem_modify {f : α → α} {l : List α} (h : x ∈ l.modify i f) : ∃ y ∈ l, x = y ∨ x = f y := by
  induction l generalizing i with
  | nil => cases i <;> cases h
  | cons y l ih =>
    cases i with
    | zero =>
      rcases List.mem_cons.1 h with rfl | h
      · exact ⟨y, List.mem_cons_self, .inr rfl⟩
      · exact ⟨x, List.mem_cons_of_mem y h, .inl rfl⟩
    | succ i =>
      rcases List.mem_cons.1 h with rfl | h
      · exact ⟨x, List.mem_cons_self, .inl rfl⟩
      · obtain ⟨z, hz, heq⟩ := ih h
        exact ⟨z, List.mem_cons_of_mem y hz, heq⟩

theorem modify_cells (f : SessionGroup → SessionGroup) (hf : ∀ group, (f group).cells = group.cells)
    (groups : List SessionGroup) (i : Nat) :
    (groups.modify i f).flatMap (·.cells) = groups.flatMap (·.cells) := by
  induction groups generalizing i with
  | nil => cases i <;> rfl
  | cons group groups ih =>
    cases i with
    | zero => exact congrArg (· ++ groups.flatMap (·.cells)) (hf group)
    | succ i => exact congrArg (group.cells ++ ·) (ih i)

theorem setGroupSplitRatio_reaches (h : WellFormed grid) (i : Nat) (ratio : Number) :
    Reaches newCellId grid action { grid with
      groups := grid.groups.modify i fun group => { group with splitRatio := clamp01 ratio } } := by
  have hmem : ∀ group ∈ grid.groups.modify i fun group => { group with splitRatio := clamp01 ratio },
      (∃ g ∈ grid.groups, g.cells = group.cells) ∧ group.splitRatio.InUnit := by
    intro group hgroup
    obtain ⟨g, hg, rfl | rfl⟩ := mem_modify hgroup
    · exact ⟨⟨group, hg, rfl⟩, h.ratios group hg⟩
    · exact ⟨⟨g, hg, rfl⟩, clamp01_inUnit ratio⟩
  have hcells : getAllCells { grid with
      groups := grid.groups.modify i fun group => { group with splitRatio := clamp01 ratio } } =
      getAllCells grid :=
    modify_cells (fun group => { group with splitRatio := clamp01 ratio }) (fun _ => rfl) grid.groups i
  have hshaped : Shaped (grid.groups.modify i
      fun group => { group with splitRatio := clamp01 ratio }) := by
    refine ⟨fun group hgroup => ?_, ?_⟩
    · obtain ⟨⟨g, hg, heq⟩, -⟩ := hmem group hgroup
      rw [← heq]
      exact h.shaped.1 g hg
    · rw [List.length_modify]
      refine h.shaped.2.imp_right (And.imp_right fun hall group hgroup => ?_)
      obtain ⟨⟨g, hg, heq⟩, -⟩ := hmem group hgroup
      rw [← heq]
      exact hall g hg
  have hwell : WellFormed { grid with
      groups := grid.groups.modify i fun group => { group with splitRatio := clamp01 ratio } } :=
    ⟨hshaped, hcells ▸ h.ids, hcells ▸ h.sessions, hcells ▸ h.focused, h.ratio,
      fun group hgroup => (hmem group hgroup).2⟩
  refine ⟨hwell, fun c hc => .inr ⟨c, hcells ▸ hc, rfl⟩, .inl ?_⟩
  rw [firstCell?_eq hwell.sound.sized, firstCell?_eq h.sound.sized, hcells]

theorem reduce_reaches (h : WellFormed grid) (hfresh : ∀ c ∈ getAllCells grid, c.id ≠ newCellId)
    {action : Action} (hoffered : Offered ⟨grid, made⟩ action) :
    ∃ grid', reduce newCellId grid action = some grid' ∧ Reaches newCellId grid action grid' := by
  cases action with
  | setFirstCellSession sessionId =>
    obtain ⟨grid', heq, hkeeps, hfirst⟩ :=
      reduceSetFirstCellSession_keeps h.sound newCellId sessionId
    exact ⟨_, by rw [reduce, heq]; rfl, hkeeps.normalized hfirst⟩
  | splitFromPill sessionId target =>
    obtain ⟨grid', heq, hkeeps, hfirst⟩ :=
      reduceSplitFromPill_keeps h.sound h.shaped hfresh sessionId hoffered
    refine ⟨_, by rw [reduce, heq]; rfl, ?_⟩
    obtain hsame | ⟨hfull, hfirst, hshown⟩ := hfirst
    · exact hkeeps.normalized hsame
    · obtain ⟨hcells, hcell⟩ := normalizeGrid_cells grid'
      refine ⟨normalizeGrid_wellFormed hkeeps.sound, hcells ▸ hkeeps.made, .inr ?_⟩
      refine ⟨sessionId, target.cellId, by rw [← hfull], hfirst, ?_⟩
      rw [hcell]
      exact hshown
  | closeCell cellId =>
    obtain ⟨grid', heq, hkeeps, hfirst⟩ := reduceCloseCell_keeps h.sound newCellId cellId
    exact ⟨_, by rw [reduce, heq]; rfl, hkeeps.normalized (by rw [firstId, firstId, hfirst])⟩
  | focusCell cellId =>
    rw [reduce]
    split
    · exact ⟨grid, rfl, (Keeps.refl h.sound).reaches h.shaped rfl⟩
    · rename_i hfind
      obtain ⟨loc, hloc⟩ := Option.ne_none_iff_exists'.1 hfind
      obtain ⟨p, hid⟩ := findCell_some hloc
      refine ⟨_, rfl, ⟨h.shaped, h.ids, h.sessions, ⟨p.cell, ?_, hid⟩, h.ratio, h.ratios⟩,
        fun c hc => .inr ⟨c, hc, rfl⟩, .inl rfl⟩
      have hall := p.cells_eq
      rw [getAllCells] at hall ⊢
      rw [hall]
      exact List.mem_append_right _ List.mem_cons_self
  | setPrimarySplitRatio ratio =>
    exact ⟨_, rfl, ⟨h.shaped, h.ids, h.sessions, h.focused, clamp01_inUnit ratio, h.ratios⟩,
      fun c hc => .inr ⟨c, hc, rfl⟩, .inl rfl⟩
  | setGroupSplitRatio groupIndex ratio =>
    rw [reduce]
    split
    · exact ⟨grid, rfl, (Keeps.refl h.sound).reaches h.shaped rfl⟩
    · rename_i i _
      exact ⟨_, rfl, setGroupSplitRatio_reaches h i ratio⟩
  | removeSession sessionId =>
    obtain ⟨grid', heq, hkeeps, hfirst⟩ := reduceRemoveSession_keeps h.sound newCellId sessionId
    exact ⟨_, by rw [reduce, heq]; rfl, hkeeps.normalized hfirst⟩

section
variable {newCellId : Nat → CellId}

structure Good (newCellId : Nat → CellId) (s : State) : Prop where
  wellFormed : WellFormed s.grid
  made : ∀ cell ∈ getAllCells s.grid, ∃ n < s.made, cell.id = newCellId n

theorem Good.fresh (h : Good newCellId s) (hnew : Function.Injective newCellId) :
    ∀ cell ∈ getAllCells s.grid, cell.id ≠ newCellId s.made := by
  intro cell hcell heq
  obtain ⟨n, hn, hid⟩ := h.made cell hcell
  exact Nat.ne_of_lt hn (hnew (hid.symm.trans heq))

theorem Good.reaches (h : Good newCellId s) (hnew : Function.Injective newCellId)
    (hoffered : Offered s action) :
    ∃ grid', reduce (newCellId s.made) s.grid action = some grid' ∧
      Reaches (newCellId s.made) s.grid action grid' :=
  reduce_reaches h.wellFormed (h.fresh hnew) hoffered

theorem Good.step (h : Good newCellId s) (hnew : Function.Injective newCellId)
    (hoffered : Offered s action) : Good newCellId (s.step newCellId action) := by
  obtain ⟨grid', heq, hreaches⟩ := h.reaches hnew hoffered
  rw [State.step, heq, Option.getD_some]
  refine ⟨hreaches.wellFormed, fun cell hcell => ?_⟩
  obtain hid | ⟨c, hc, hid⟩ := hreaches.made cell hcell
  · exact ⟨s.made, Nat.lt_succ_self _, hid⟩
  · obtain ⟨n, hn, hmade⟩ := h.made c hc
    exact ⟨n, Nat.lt_succ_of_lt hn, hid.symm.trans hmade⟩

theorem Good.start : Good newCellId (State.start newCellId) := by
  refine ⟨⟨⟨?_, .inr ⟨rfl, ?_⟩⟩, ?_, ?_, ?_, default_inUnit, ?_⟩, ?_⟩
  · exact fun group hgroup => List.mem_singleton.1 hgroup ▸ .inl rfl
  · exact fun group hgroup => List.mem_singleton.1 hgroup ▸ rfl
  · exact List.nodup_singleton _
  · exact List.nodup_nil
  · exact ⟨_, List.mem_cons_self, rfl⟩
  · exact fun group hgroup => List.mem_singleton.1 hgroup ▸ default_inUnit
  · exact fun cell hcell => List.mem_singleton.1 hcell ▸ ⟨0, Nat.one_pos, rfl⟩

/-- After any actions the grid is well formed, the first cell cannot be closed, and each action that
may follow leaves it where it is. -/
theorem run_wellFormed (hnew : Function.Injective newCellId) (actions : List Action)
    (hoffered : Run.Each (State.step newCellId) Offered (State.start newCellId) actions) :
    let s := Run.run (State.step newCellId) (State.start newCellId) actions
    WellFormed s.grid ∧
      (∀ cellId, isFirstCell s.grid cellId = true → reduceCloseCell s.grid cellId = some s.grid) ∧
      ∀ action, Offered s action →
        ∃ grid', reduce (newCellId s.made) s.grid action = some grid' ∧
          s.step newCellId action = ⟨grid', s.made + 1⟩ ∧ KeepsFirst s.grid action grid' := by
  have hgood : Good newCellId (Run.run (State.step newCellId) (State.start newCellId) actions) :=
    Run.Each.preserves (fun _ _ hgood hok => hgood.step hnew hok) Good.start hoffered
  refine ⟨hgood.wellFormed, fun cellId hfirst => if_pos hfirst, fun action hok => ?_⟩
  obtain ⟨grid', heq, hreaches⟩ := hgood.reaches hnew hok
  exact ⟨grid', heq, by rw [State.step, heq]; rfl, hreaches.first⟩

end

/-- A split in two, one of them split again and closed. -/
theorem run_wellFormed_sample :
    let newCellId n := String.ofList (List.replicate n 'c')
    WellFormed (Run.run (State.step newCellId) (State.start newCellId)
      [.setFirstCellSession "a", .splitFromPill "b" ⟨"", .right⟩, .splitFromPill "c" ⟨"", .bottom⟩,
        .removeSession "a", .closeCell "ccc"]).grid := by
  intro newCellId
  have hnew : Function.Injective newCellId := by
    intro m n h
    simpa [newCellId] using congrArg (fun id : CellId => id.toList.length) h
  exact (run_wellFormed hnew _ (by decide)).1

end Cdesktop.SessionGrid
