import Optima.Assignment.State

namespace Optima.Assignment

inductive Adjustment (F : Type) where
  /-- An uncovered zero has a star in its row: its row is covered in place of the star's column. -/
  | cover (zero : Cell) (starColumn : Nat)
  /-- An uncovered zero without a star in its row starts a path of marks to flip. -/
  | augment (zero : Cell) (path : List Cell)
  /-- There is no uncovered zero, and the smallest uncovered cost becomes one. -/
  | shift (minimum : F)

/-- The marks on the way from a column: its star, the prime in the row of that star, and so on. The
number bounds the stars. -/
def alternating (m : Marks) : Nat → Nat → List Cell
  | 0, _ => []
  | n + 1, column =>
    match m.inColumn? .starred column with
    | none => []
    | some row =>
      ⟨row, column⟩ :: match m.inRow? .primed row with
        | none => []
        | some next => ⟨row, next⟩ :: alternating m n next

namespace State

variable {F : Type} [Scalar F]

def isZero (s : State F) (c : Cell) : Bool :=
  Scalar.magnitude (s.reduced.get c.row c.column) < Scalar.tolerance

def reduceRow (row : List F) : List F :=
  match Scalar.least? row with
  | some x => row.map (· + -x)
  | none => row

def reduceRows (s : State F) : Matrix F :=
  { s.reduced with
    rows := s.reduced.rows.mapIdx fun i row => if i < s.size then reduceRow row else row }

def reduceColumns (s : State F) : Matrix F :=
  let minima := (List.range s.size).map s.reduced.columnMinimum?
  { s.reduced with
    rows := s.reduced.rows.map fun row => row.mapIdx fun j x =>
      match minima.getD j none with
      | some y => x + -y
      | none => x }

def starIfFree (s : State F) (m : Marks) (c : Cell) : Marks :=
  if s.isZero c && (m.get c).isNone && (m.inRow? .starred c.row).isNone &&
      (m.inColumn? .starred c.column).isNone then m.set c (some .starred)
  else m

def starZeros (s : State F) : Marks :=
  (Cell.table s.size s.size).foldl s.starIfFree s.marks

def coverStars (s : State F) : State F :=
  { s with
    coveredRows := List.replicate s.size false
    coveredColumns :=
      (List.range s.size).map fun j => (s.marks.inColumn? .starred j).isSome }

def coveredColumnCount (s : State F) : Nat := s.coveredColumns.count true

def uncovered (s : State F) : List Cell :=
  (Cell.table s.size s.size).filter fun c =>
    !s.isRowCovered c.row && !s.isColumnCovered c.column

def uncoveredZero? (s : State F) : Option Cell := s.uncovered.find? s.isZero

def uncoveredMinimum (s : State F) : F :=
  (Scalar.least? (s.uncovered.map fun c => s.reduced.get c.row c.column)).getD 0

def primed (s : State F) (zero : Cell) : Marks := s.marks.set zero (some .primed)

def augmentingPath (s : State F) (zero : Cell) : List Cell :=
  zero :: alternating (s.primed zero) (s.size + 1) zero.column

def adjustment (s : State F) : Adjustment F :=
  match s.uncoveredZero? with
  | none => .shift s.uncoveredMinimum
  | some c =>
    match (s.primed c).inRow? .starred c.row with
    | some column => .cover c column
    | none => .augment c (s.augmentingPath c)

/-- Takes a value off uncovered costs and adds it to those in two covered lines. -/
def shiftCosts (s : State F) (x : F) : Matrix F :=
  { s.reduced with
    rows := s.reduced.rows.mapIdx fun i row => row.mapIdx fun j y =>
      if s.size ≤ i || s.size ≤ j then y
      else
        match s.isRowCovered i, s.isColumnCovered j with
        | false, false => y - x
        | true, true => y + x
        | _, _ => y }

variable [Numeral F]

def adjust (s : State F) : Adjustment F → State F
  | .cover c column =>
    { s with
      marks := s.primed c
      coveredRows := s.coveredRows.set c.row true
      coveredColumns := s.coveredColumns.set column false
      explanation := s!"Primed zero at ({c.row + 1}, {c.column + 1}). Its row has a " ++
        s!"starred zero: covered row {c.row + 1}, uncovered column {column + 1}." }
  | .augment c path =>
    let marks := (path.foldl Marks.flip (s.primed c)).erasePrimes
    let next := { s with marks }.coverStars
    let covered := next.coveredColumnCount
    { next with
      phase := if covered = s.size then .findAssignment else s.phase
      explanation := s!"Primed zero at ({c.row + 1}, {c.column + 1}) has no starred zero in its " ++
        s!"row. Flipped the augmenting path of {path.length} zeros; {covered} of {s.size} " ++
        "columns covered." }
  | .shift x =>
    { s with
      reduced := s.shiftCosts x
      minUncovered := some x
      explanation := "No uncovered zeros. Subtracted the minimum uncovered value " ++
        s!"{Numeral.text x} from uncovered elements and added it to doubly covered elements." }

def starAndCover (s : State F) : State F :=
  let next := { s with marks := s.starZeros }.coverStars
  let covered := next.coveredColumnCount
  { next with
    phase := if covered = s.size then .findAssignment else .adjustMatrix
    explanation := "Starred independent zeros and covered their columns: " ++
      s!"{covered} of {s.size} lines needed." }

def assign (s : State F) : State F :=
  let assignments := s.marks.starred
  let totalCost := Scalar.sum (assignments.map fun c => s.costs.get c.row c.column)
  { s with
    assignments
    totalCost
    phase := .complete
    progress := .complete
    explanation := s!"Optimal assignment found with total cost {Numeral.text totalCost}." }

def work (s : State F) : State F :=
  match s.phase with
  | .reduceRows =>
    { s with
      reduced := s.reduceRows
      phase := .reduceColumns
      explanation := "Subtracted the smallest element of each row from that row." }
  | .reduceColumns =>
    { s with
      reduced := s.reduceColumns
      phase := .coverZeros
      explanation := "Subtracted the smallest element of each column from that column." }
  | .coverZeros => s.starAndCover
  | .adjustMatrix => s.adjust s.adjustment
  | .findAssignment => s.assign
  | .complete => { s with progress := .complete }

def next (s : State F) : State F :=
  if s.progress = .complete then s
  else { s with step := s.step + 1, progress := .running }.work

def pathText (path : List Cell) : String :=
  "[" ++ ", ".intercalate (path.map fun c => s!"({c.row}, {c.column})") ++ "]"

def workLog (s : State F) : List LogEntry :=
  match s.phase with
  | .adjustMatrix =>
    let path := match s.adjustment with
      | .augment _ path => [.debug s!"Augmenting path {pathText path}"]
      | _ => []
    path ++ [.trace s!"Reduced costs:\n{s.next.reduced.text}"]
  | .findAssignment =>
    [.debug s!"Assignment complete with total cost {Numeral.text s.next.totalCost}"]
  | _ => []

instance : Solver (State F) where
  isTerminal s := s.progress = .complete
  step s := .ok s.next
  log s :=
    if s.progress = .complete then []
    else s.workLog ++
      [.debug s!"Hungarian step {s.step + 1}: {s.phase.name} -> {s.next.phase.name}"]
  explanation := explanation

end State

end Optima.Assignment
