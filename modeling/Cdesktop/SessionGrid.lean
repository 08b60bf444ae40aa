import Cdesktop.Run
import Mathlib.Data.Rat.Defs

/-! How the workspace area is split into one to four session cells. -/

namespace Cdesktop.SessionGrid
set_option autoImplicit true

abbrev CellId := String
abbrev SessionId := String

inductive Number where
  | nan
  | negInfinity
  | finite (value : Rat)
  | infinity

inductive PrimaryOrientation where
  | vertical
  | horizontal
deriving DecidableEq

structure SessionCell where
  id : CellId
  sessionId : SessionId

structure SessionGroup where
  cells : List SessionCell
  splitRatio : Number

structure Grid where
  primaryOrientation : PrimaryOrientation
  groups : List SessionGroup
  splitRatio : Number
  focusedCellId : CellId

inductive DropHalf where
  | right
  | bottom
  | top
  | left
  | full
deriving DecidableEq

structure DropTarget where
  cellId : CellId
  half : DropHalf

def defaultRatio : Number := .finite (1 / 2)

def clamp01 : Number → Number
  | .nan => defaultRatio
  | .negInfinity => .finite 0
  | .infinity => .finite 1
  | .finite n => if n < 0 then .finite 0 else if n > 1 then .finite 1 else .finite n

def makeGroup (cells : List SessionCell) : SessionGroup := ⟨cells, defaultRatio⟩

def emptyGrid (newCellId : CellId) (sessionId : SessionId) : Grid :=
  ⟨.vertical, [makeGroup [⟨newCellId, sessionId⟩]], defaultRatio, newCellId⟩

structure Location where
  groupIndex : Nat
  cellIndex : Nat

/-- The loop of `findCell` from the group with index `g` on. -/
def findCellFrom (cellId : CellId) : Nat → List SessionGroup → Option Location
  | _, [] => none
  | g, group :: groups =>
    match group.cells.findIdx? (·.id = cellId) with
    | some c => some ⟨g, c⟩
    | none => findCellFrom cellId (g + 1) groups

def findCell (grid : Grid) (cellId : CellId) : Option Location :=
  findCellFrom cellId 0 grid.groups

def getAllCells (grid : Grid) : List SessionCell := grid.groups.flatMap (·.cells)

def findCellBySessionId (grid : Grid) (sessionId : SessionId) : Option SessionCell :=
  if sessionId = "" then none else (getAllCells grid).find? (·.sessionId = sessionId)

/-- `grid.groups[0]?.cells[0]` -/
def firstCell? (grid : Grid) : Option SessionCell := do
  (← grid.groups[0]?).cells[0]?

def isFirstCell (grid : Grid) (cellId : CellId) : Bool :=
  (firstCell? grid).map (·.id) = some cellId

def pickFallbackFocus (newGrid : Grid) (closedLocation : Location) : Option CellId :=
  match newGrid.groups[closedLocation.groupIndex]? with
  | some group =>
    match group.cells[closedLocation.cellIndex - 1]? with
    | some sibling => some sibling.id
    | none => (firstCell? newGrid).map (·.id)
  | none => (firstCell? newGrid).map (·.id)

def reduceReplaceCell (newCellId : CellId) (grid : Grid) (cellId : CellId) (sessionId : SessionId) :
    Grid :=
  match findCell grid cellId with
  | none => grid
  | some loc =>
    { grid with
      groups := grid.groups.modify loc.groupIndex fun group =>
        { group with cells := group.cells.set loc.cellIndex ⟨newCellId, sessionId⟩ }
      focusedCellId := newCellId }

def refocus (grid : Grid) (cellId : CellId) (loc : Location) : Option Grid :=
  if grid.focusedCellId = cellId then do
    return { grid with focusedCellId := ← pickFallbackFocus grid loc }
  else some grid

def reduceCloseCell (grid : Grid) (cellId : CellId) : Option Grid :=
  if isFirstCell grid cellId then some grid
  else match findCell grid cellId with
  | none => some grid
  | some loc => do
    let group ← grid.groups[loc.groupIndex]?
    let groupCells := group.cells.eraseIdx loc.cellIndex
    if groupCells.length = 0 then
      let groups := grid.groups.eraseIdx loc.groupIndex
      let collapsed := { grid with groups, splitRatio := defaultRatio }
      let single := groups.length = 1 ∧ groups.head?.map (·.cells.length) = some 1
      refocus (if single then { collapsed with primaryOrientation := .vertical } else collapsed)
        cellId loc
    else
      refocus { grid with groups := grid.groups.set loc.groupIndex { group with cells := groupCells } }
        cellId loc

/-- A first cell that is not there would be written without an id. -/
def rewriteFirstCellSession (grid : Grid) (sessionId : SessionId) : Option Grid :=
  match grid.groups with
  | [] | ⟨[], _⟩ :: _ => none
  | ⟨firstCell :: rest, splitRatio⟩ :: groups => some
    { grid with
      groups := ⟨{ firstCell with sessionId } :: rest, splitRatio⟩ :: groups
      focusedCellId := firstCell.id }

/-- The session ends up only in the first cell. -/
def closeDuplicate (grid : Grid) (sessionId : SessionId) : Option Grid :=
  match findCellBySessionId grid sessionId with
  | some dup => reduceCloseCell grid dup.id
  | none => some grid

def reduceSetFirstCellSession (grid : Grid) (sessionId : SessionId) : Option Grid :=
  match firstCell? grid with
  | some cell =>
    if cell.sessionId = sessionId then some { grid with focusedCellId := cell.id }
    else moveHere
  | none => moveHere
where
  moveHere := do rewriteFirstCellSession (← closeDuplicate grid sessionId) sessionId

/-- The new cell in a group with room for it, before or after its cell. -/
def insertCell (grid : Grid) (loc : Location) (insertAt : Nat) (newCell : SessionCell) : Grid :=
  { grid with
    groups := grid.groups.modify loc.groupIndex fun group =>
      { group with cells := group.cells.insertIdx insertAt newCell }
    focusedCellId := newCell.id }

/-- A drop across the axis, which the overlay does not offer. -/
def crossAxis (newCell : SessionCell) (grid : Grid) (cellId : CellId) : Grid :=
  if grid.groups.length < 2 then
    { grid with groups := grid.groups ++ [makeGroup [newCell]], focusedCellId := newCell.id }
  else reduceReplaceCell newCell.id grid cellId newCell.sessionId

def reduceSplitFromPill (newCellId : CellId) (grid : Grid) (sessionId : SessionId)
    (target : DropTarget) : Option Grid :=
  let newCell : SessionCell := ⟨newCellId, sessionId⟩
  if (findCellBySessionId grid sessionId).isSome then some grid
  else match findCell grid target.cellId with
  | none => some grid
  | some loc =>
    if target.half = .full then some (reduceReplaceCell newCellId grid target.cellId sessionId)
    else if (getAllCells grid).length = 1 then
      if target.half ≠ .right ∧ target.half ≠ .bottom then some grid
      else do
        let first ← grid.groups[0]?
        return {
          primaryOrientation := if target.half = .right then .vertical else .horizontal
          groups := [first, makeGroup [newCell]]
          splitRatio := defaultRatio
          focusedCellId := newCellId }
    else do
      let targetGroup ← grid.groups[loc.groupIndex]?
      if targetGroup.cells.length ≥ 2 then
        return reduceReplaceCell newCellId grid target.cellId sessionId
      match grid.primaryOrientation, target.half with
      | .vertical, .top | .horizontal, .left => return insertCell grid loc 0 newCell
      | .vertical, .bottom | .horizontal, .right =>
        return insertCell grid loc targetGroup.cells.length newCell
      | .vertical, .right | .horizontal, .bottom => return crossAxis newCell grid target.cellId
      | _, _ => return grid

def getValidDropHalves (grid : Grid) (cellId : CellId) : List DropHalf :=
  match findCell grid cellId with
  | none => []
  | some loc =>
    if (grid.groups[loc.groupIndex]?).map (·.cells.length) = some 2 then [.full]
    else if (getAllCells grid).length = 1 then [.right, .bottom]
    else
      let isAnchor := isFirstCell grid cellId
      match grid.primaryOrientation with
      | .vertical => if isAnchor then [.bottom] else [.top, .bottom]
      | .horizontal => if isAnchor then [.right] else [.left, .right]

def normalizeGrid (grid : Grid) : Grid :=
  match grid.groups with
  | [⟨[c0, c1], splitRatio⟩] =>
    { grid with
      primaryOrientation :=
        if grid.primaryOrientation = .vertical then .horizontal else .vertical
      groups := [⟨[c0], defaultRatio⟩, ⟨[c1], defaultRatio⟩]
      splitRatio }
  | _ => grid

def reduceRemoveSession (grid : Grid) (sessionId : SessionId) : Option Grid :=
  match findCellBySessionId grid sessionId with
  | none => some grid
  | some cell =>
    if isFirstCell grid cell.id then
      match getAllCells grid, grid.groups with
      | _ :: next :: _, _ => do
        reduceCloseCell (← rewriteFirstCellSession grid next.sessionId) next.id
      | _, firstGroup :: _ => some
        { grid with
          groups := [⟨{ cell with sessionId := "" } :: firstGroup.cells.drop 1,
            firstGroup.splitRatio⟩]
          focusedCellId := cell.id }
      | _, [] => none
    else reduceCloseCell grid cell.id

inductive Action where
  | setFirstCellSession (sessionId : SessionId)
  | splitFromPill (sessionId : SessionId) (target : DropTarget)
  | closeCell (cellId : CellId)
  | focusCell (cellId : CellId)
  | setPrimarySplitRatio (ratio : Number)
  | setGroupSplitRatio (groupIndex : Number) (ratio : Number)
  | removeSession (sessionId : SessionId)

/-- The entry of an array that a number names: others are properties beside the entries. -/
def arrayIndex : Number → Option Nat
  | .finite n => if n.den = 1 ∧ 0 ≤ n then some n.num.toNat else none
  | _ => none

structure State where
  grid : Grid
  made : Nat

def reduce (newCellId : CellId) (grid : Grid) : Action → Option Grid
  | .setFirstCellSession sessionId => (reduceSetFirstCellSession grid sessionId).map normalizeGrid
  | .splitFromPill sessionId target =>
    (reduceSplitFromPill newCellId grid sessionId target).map normalizeGrid
  | .closeCell cellId => (reduceCloseCell grid cellId).map normalizeGrid
  | .focusCell cellId =>
    if findCell grid cellId = none then some grid else some { grid with focusedCellId := cellId }
  | .setPrimarySplitRatio ratio => some { grid with splitRatio := clamp01 ratio }
  | .setGroupSplitRatio groupIndex ratio =>
    match arrayIndex groupIndex with
    | none => some grid
    | some i => some { grid with
        groups := grid.groups.modify i fun group => { group with splitRatio := clamp01 ratio } }
  | .removeSession sessionId => (reduceRemoveSession grid sessionId).map normalizeGrid

section
variable (newCellId : Nat → CellId)

def State.step (s : State) (action : Action) : State :=
  ⟨(reduce (newCellId s.made) s.grid action).getD s.grid, s.made + 1⟩

def State.start : State := ⟨emptyGrid (newCellId 0) "", 1⟩

end

def Offered (s : State) : Action → Prop
  | .splitFromPill _ target => target.half ∈ getValidDropHalves s.grid target.cellId
  | _ => True

instance Offered.decidable (s : State) : ∀ action, Decidable (Offered s action)
  | .splitFromPill _ target =>
    inferInstanceAs (Decidable (target.half ∈ getValidDropHalves s.grid target.cellId))
  | .setFirstCellSession _ | .closeCell _ | .focusCell _ | .setPrimarySplitRatio _
  | .setGroupSplitRatio .. | .removeSession _ => .isTrue trivial

def Shaped (groups : List SessionGroup) : Prop :=
  (∀ group ∈ groups, group.cells.length = 1 ∨ group.cells.length = 2) ∧
    (groups.length = 2 ∨ groups.length = 1 ∧ ∀ group ∈ groups, group.cells.length = 1)

def Number.InUnit : Number → Prop
  | .finite n => 0 ≤ n ∧ n ≤ 1
  | _ => False

structure WellFormed (grid : Grid) : Prop where
  shaped : Shaped grid.groups
  ids : ((getAllCells grid).map (·.id)).Nodup
  sessions : (((getAllCells grid).map (·.sessionId)).filter (· ≠ "")).Nodup
  focused : ∃ cell ∈ getAllCells grid, cell.id = grid.focusedCellId
  ratio : grid.splitRatio.InUnit
  ratios : ∀ group ∈ grid.groups, group.splitRatio.InUnit

/-- The first cell stays where it is, unless a session is dropped on the whole of it: the new cell
is the first one then. -/
def KeepsFirst (grid : Grid) (action : Action) (grid' : Grid) : Prop :=
  (firstCell? grid').map (·.id) = (firstCell? grid).map (·.id) ∨
    ∃ sessionId cellId, action = .splitFromPill sessionId ⟨cellId, .full⟩ ∧
      isFirstCell grid cellId = true ∧ (firstCell? grid').map (·.sessionId) = some sessionId

end Cdesktop.SessionGrid
