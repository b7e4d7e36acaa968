import Optima.Transport.State

namespace Optima.Transport

structure Duals (F : Type) where
  rows : List (Option F)
  columns : List (Option F)

namespace Duals

variable {F : Type} [Scalar F]

/-- The first row at zero and nothing else. -/
def start (rowCount columnCount : Nat) : Duals F :=
  ⟨(List.replicate rowCount none).set 0 (some 0), List.replicate columnCount none⟩

def row? (d : Duals F) (i : Nat) : Option F := d.rows.getD i none

def column? (d : Duals F) (j : Nat) : Option F := d.columns.getD j none

/-- Gives a value to the line of a cell whose other line has one. -/
def resolve (unitCost : Cell → F) (d : Duals F) (c : Cell) : Duals F :=
  match d.row? c.row, d.column? c.column with
  | some u, none => { d with columns := d.columns.set c.column (some (unitCost c - u)) }
  | none, some v => { d with rows := d.rows.set c.row (some (unitCost c - v)) }
  | _, _ => d

def propagate (unitCost : Cell → F) (cells : List Cell) : Nat → Duals F → Duals F
  | 0, d => d
  | n + 1, d => propagate unitCost cells n (cells.foldl (resolve unitCost) d)

def missing (values : List (Option F)) : List Nat :=
  (List.range values.length).filter fun i => (values.getD i none).isNone

end Duals

variable {F : Type} [Scalar F]

/-- The dual values that the basic cells determine, starting from zero at the first row. Every pass
that changes anything finds a value, so as many passes as lines find them all. -/
def State.duals (s : State F) : Duals F :=
  Duals.propagate s.unitCost s.plan.basicCells (s.rowCount + s.columnCount)
    (Duals.start s.rowCount s.columnCount)

def State.allDuals (s : State F) : Except SolveError (Duals F) :=
  let d := s.duals
  let rows := Duals.missing d.rows
  let columns := Duals.missing d.columns
  if rows.isEmpty && columns.isEmpty then .ok d else .error (.unresolvedDuals rows columns)

end Optima.Transport
