import Optima.Transport.State

namespace Optima.Transport.State

variable {F : Type} [Scalar F]

def nextCells (s : State F) (c : Cell) (alongRow : Bool) : List Cell :=
  if alongRow then
    ((List.range s.columnCount).filter (· ≠ c.column)).map fun j => ⟨c.row, j⟩
  else ((List.range s.rowCount).filter (· ≠ c.row)).map fun i => ⟨i, c.column⟩

/-- Extends a path, given in reverse, through basic cells until it closes at its first cell along a
column. The number bounds the cells still to come. -/
def extendLoop? (s : State F) (first : Cell) : Nat → List Cell → Bool → Option (List Cell)
  | 0, _, _ => none
  | n + 1, path, alongRow =>
    (s.nextCells (path.headD first) alongRow).findSome? fun c =>
      if !alongRow && c = first && decide (4 ≤ path.length) then some path.reverse
      else if s.plan.isBasic c && !path.contains c then
        extendLoop? s first n (c :: path) (!alongRow)
      else none

/-- The closed loop through a cell whose other cells are basic, starting along the row, with at most
as many cells as there are rows and columns together. -/
def closedLoop? (s : State F) (c : Cell) : Option (List Cell) :=
  s.extendLoop? c (s.rowCount + s.columnCount) [c] true

end Optima.Transport.State
