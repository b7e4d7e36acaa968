import Optima.Transport.State

namespace Optima.Transport

inductive Line where
  | row
  | column
  deriving DecidableEq

/-- What not using the cheapest available cell of a line would cost. -/
structure Penalty (F : Type) where
  line : Line
  index : Nat
  /-- The second smallest less the smallest cost, zero with fewer than two cells. -/
  penalty : F
  costs : List F

inductive Reason (F : Type) where
  | northwest
  | cheapest
  | penalty (p : Penalty F)

namespace State

variable {F : Type} [Scalar F]

def lineCells (s : State F) (line : Line) (index : Nat) : List Cell :=
  match line with
  | .row => s.availableDestinations.map fun j => ⟨index, j⟩
  | .column => s.availableSources.map fun i => ⟨i, index⟩

def penaltyOf (s : State F) (line : Line) (index : Nat) : Penalty F :=
  let costs := Scalar.ascending ((s.lineCells line index).map s.unitCost)
  let penalty := match costs with
    | smallest :: second :: _ => second - smallest
    | _ => 0
  ⟨line, index, penalty, costs⟩

/-- The penalties of the available rows, then of the available columns. -/
def penalties (s : State F) : List (Penalty F) :=
  s.availableSources.map (s.penaltyOf .row) ++ s.availableDestinations.map (s.penaltyOf .column)

def cheapest? (s : State F) (cells : List Cell) : Option Cell :=
  firstBest? (fun a b => decide (s.unitCost a < s.unitCost b)) cells

def highestPenalty? (s : State F) : Option (Penalty F) :=
  firstBest? (fun a b => decide (b.penalty < a.penalty)) s.penalties

def select? (m : InitialMethod) (s : State F) : Option (Cell × Reason F) :=
  match m with
  | .northwestCorner => s.availableCells.head?.map fun c => (c, .northwest)
  | .leastCost => (s.cheapest? s.availableCells).map fun c => (c, .cheapest)
  | .vogel => do
    let p ← s.highestPenalty?
    let c ← s.cheapest? (s.lineCells p.line p.index)
    return (c, .penalty p)

def reasonText [Numeral F] (s : State F) (c : Cell) : Reason F → String
  | .northwest => s!"Northwest-most available cell has cost {Numeral.text (s.unitCost c)}."
  | .cheapest => s!"Selected the cell with minimum cost {Numeral.text (s.unitCost c)}."
  | .penalty p =>
    let place := match p.line with
      | .row => "row " ++ s.sourceLabel p.index
      | .column => "column " ++ s.destinationLabel p.index
    s!"Highest penalty ({Numeral.text p.penalty}) in {place}, its cheapest available cell has " ++
      s!"cost {Numeral.text (s.unitCost c)}."

end State

end Optima.Transport
