import Optima.Assignment.Problem
import Optima.Cell
import Optima.Run

namespace Optima.Assignment

/-- A zero is starred when it is part of the assignment for now, and primed when it may become
so. -/
inductive Mark where
  | starred
  | primed
  deriving DecidableEq

inductive Phase where
  | reduceRows
  | reduceColumns
  | coverZeros
  | findAssignment
  | adjustMatrix
  | complete
  deriving DecidableEq

namespace Phase

def name : Phase → String
  | .reduceRows => "ReduceRows"
  | .reduceColumns => "ReduceColumns"
  | .coverZeros => "CoverZeros"
  | .findAssignment => "FindAssignment"
  | .adjustMatrix => "AdjustMatrix"
  | .complete => "Complete"

def ofName? : String → Option Phase
  | "ReduceRows" => some .reduceRows
  | "ReduceColumns" => some .reduceColumns
  | "CoverZeros" => some .coverZeros
  | "FindAssignment" => some .findAssignment
  | "AdjustMatrix" => some .adjustMatrix
  | "Complete" => some .complete
  | _ => none

end Phase

abbrev Marks := List (List (Option Mark))

namespace Marks

def blank (n : Nat) : Marks := List.replicate n (List.replicate n none)

def get (m : Marks) (c : Cell) : Option Mark := (m.getD c.row []).getD c.column none

def set (m : Marks) (c : Cell) (mark : Option Mark) : Marks :=
  m.modify c.row (·.set c.column mark)

def inRow? (m : Marks) (mark : Mark) (row : Nat) : Option Nat :=
  (m.getD row []).findIdx? (· == some mark)

def inColumn? (m : Marks) (mark : Mark) (column : Nat) : Option Nat :=
  m.findIdx? fun row => row.getD column none == some mark

def flip (m : Marks) (c : Cell) : Marks :=
  m.set c (if m.get c = some .starred then none else some .starred)

def erasePrimes (m : Marks) : Marks :=
  m.map (·.map fun mark => if mark = some .primed then none else mark)

def starred (m : Marks) : List Cell :=
  (Cell.table m.length m.length).filter fun c => m.get c == some .starred

end Marks

structure State (F : Type) where
  problem : AssignmentProblem F
  reduced : Matrix F
  costs : Matrix F
  assignments : List Cell
  totalCost : F
  step : Nat
  progress : Progress
  explanation : String
  coveredRows : List Bool
  coveredColumns : List Bool
  marks : Marks
  /-- The value subtracted when the reduced costs were last shifted. -/
  minUncovered : Option F
  phase : Phase

namespace State

variable {F : Type} [Scalar F]

instance : BEq (State F) where
  beq s t := s.problem == t.problem && s.reduced == t.reduced && s.costs == t.costs &&
    s.assignments == t.assignments && s.totalCost == t.totalCost && s.step == t.step &&
    s.progress == t.progress && s.explanation == t.explanation &&
    s.coveredRows == t.coveredRows && s.coveredColumns == t.coveredColumns &&
    s.marks == t.marks && s.minUncovered == t.minUncovered && s.phase == t.phase

def size (s : State F) : Nat := s.marks.length

def isRowCovered (s : State F) (i : Nat) : Bool := s.coveredRows.getD i false

def isColumnCovered (s : State F) (j : Nat) : Bool := s.coveredColumns.getD j false

end State

variable {F : Type} [Scalar F]

/-- Costs whose smallest total is wanted: profits are taken from the largest of them. -/
def costsToMinimize (p : AssignmentProblem F) : Matrix F :=
  let costs := Matrix.ofRows p.costs
  if p.isMaximization then
    let largest := costs.maximum?.getD 0
    costs.map (largest - ·)
  else costs

def firstState (p : AssignmentProblem F) : State F :=
  let n := p.rowCount
  let kind := if p.isMaximization then "maximization" else "minimization"
  { problem := p
    reduced := costsToMinimize p
    costs := Matrix.ofRows p.costs
    assignments := []
    totalCost := 0
    step := 0
    progress := .initial
    explanation := s!"Starting Hungarian Method for {kind} assignment problem."
    coveredRows := List.replicate n false
    coveredColumns := List.replicate n false
    marks := Marks.blank n
    minUncovered := none
    phase := .reduceRows }

def start (p : AssignmentProblem F) : Except SolveError (State F) :=
  match p.fault? with
  | some fault => .error (.invalidProblem fault)
  | none => .ok (firstState p.balance)

def startLog (p : AssignmentProblem F) : List LogEntry :=
  match p.fault? with
  | some _ => []
  | none => [.debug s!"Initialized {p.size}x{p.size} assignment problem"]

end Optima.Assignment
